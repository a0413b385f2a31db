import RowFilter.Command.Columns
import RowFilter.Condition.OfExpr
import RowFilter.Json.Reader
import RowFilter.Schema.FieldSpec

namespace RowFilter

/-- Reads the fields of a schema. -/
def readSchema (specs : List String) : Except CommandError Schema := do
  let fields ← specs.mapM fun spec =>
    match FieldSpec.read? spec.toList with
    | some f => .ok f
    | none => .error (.invalidFieldSpec spec)
  return ⟨fields⟩

/-- The rows that a condition holds of. Every row has to be an object. -/
def keepRows (s : Schema) (c : Condition) : List Json → Except CommandError (List Json)
  | [] => .ok []
  | .object members :: rest => do
    let kept ← keepRows s c rest
    return if c.holds (jsonRow s members) then .object members :: kept else kept
  | _ :: _ => .error .notObjects

/-- The rows of an input: the items of an array, or one object. -/
def rowsOf : Json → Except CommandError (List Json)
  | .array rows => .ok rows
  | .object members => .ok [.object members]
  | _ => .error .notObjects

/-- Keeps the rows of a JSON text that an expression matches. -/
def filterRows (text : String) (specs : List String) (input : Option String) :
    Except CommandError (List Json) := do
  let s ← readSchema specs
  let e ← parseFor text
  let c ← (Condition.ofExpr s e).mapError .compile
  match input with
  | none => .error .noInput
  | some json =>
    match Json.read? Json.inputDepth json.toList with
    | none => .error .invalidJson
    | some value => keepRows s c (← rowsOf value)

end RowFilter
