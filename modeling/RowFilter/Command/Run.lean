import RowFilter.Command.Arguments
import RowFilter.Command.Manual
import RowFilter.Command.Rows

namespace RowFilter

structure Outcome where
  code : Nat
  stdout : String
  stderr : String
deriving DecidableEq, Repr

namespace Command

/-- Whether a command reads its standard input. -/
def readsInput : Command → Bool
  | filter _ _ none _ => true
  | _ => false

/-- The output of a command. -/
def output (stdin : String) : Command → Except CommandError String
  | whereClause text table fields => return (← whereSql text table fields) ++ "\n"
  | orderClause text table => return (← orderSql text table) ++ "\n"
  | check text tree => do
    let e ← parseFor text
    return if tree then String.ofList e.callText ++ "\n" else "Expression is valid\n"
  | filter text fields input pretty => do
    let rows ← filterRows text fields (input.or (some stdin))
    let value := Json.array rows
    return String.ofList (if pretty then value.prettyText else value.text) ++ "\n"
  | manual none => return Manual.overview
  | manual (some name) =>
    match Manual.category? name with
    | some category => return category.text
    | none => .error (.unknownCategory name)
  | version => return "sqlexpr 0.1.0\n"

/-- The outcome of a command. -/
def run (stdin : String) (c : Command) : Outcome :=
  match c.output stdin with
  | .ok text => ⟨0, text, ""⟩
  | .error e => ⟨1, "", e.message ++ "\n"⟩

end Command

/-- What the program prints for arguments that it does not understand. -/
def usage : String :=
  "usage: sqlexpr where|order-by|check|filter|docs ...\n"

/-- The outcome of the program for its arguments and its standard input. -/
def runArguments (arguments : List String) (stdin : String) : Outcome :=
  match Arguments.read? arguments with
  | some c => c.run stdin
  | none => ⟨2, "", usage⟩

end RowFilter
