import RowFilter.Number.Double

namespace RowFilter

/-- A whole number of 64 bits, or a double for any other. -/
inductive JsonNumber
  | integer (n : Int)
  | real (x : Double)
deriving DecidableEq, Repr

/-- A JSON value. The members of an object are in the order of their names. -/
inductive Json
  | null
  | boolean (b : Bool)
  | number (n : JsonNumber)
  | string (s : String)
  | array (items : List Json)
  | object (members : List (String × Json))
deriving Repr

namespace JsonNumber

/-- The whole numbers from the least signed to the greatest unsigned one of 64 bits. -/
def ofInt? (n : Int) : Option JsonNumber :=
  if -Int.pow 2 63 ≤ n ∧ n < Int.pow 2 64 then some (integer n) else none

/-- The number as a double, rounded if need be. -/
def toDouble : JsonNumber → Double
  | integer n => .ofInt n
  | real x => x

end JsonNumber

namespace Json

/-- The order of member names, by code points. -/
def nameOrder (a b : String) : Ordering :=
  compare a.toList b.toList

/-- Puts a member in its place. A member of the same name is replaced. -/
def insertMember (name : String) (value : Json) : List (String × Json) → List (String × Json)
  | [] => [(name, value)]
  | (other, held) :: rest =>
    match nameOrder name other with
    | .lt => (name, value) :: (other, held) :: rest
    | .eq => (name, value) :: rest
    | .gt => (other, held) :: insertMember name value rest

/-- The object with these members, of which a later one replaces an earlier one. -/
def ofMembers (members : List (String × Json)) : Json :=
  object (members.foldl (fun sorted (name, value) => insertMember name value sorted) [])

/-- The member of exactly this name. -/
def member? (members : List (String × Json)) (name : String) : Option Json :=
  (members.find? fun m => m.1 = name).map (·.2)

end Json

end RowFilter
