import RowFilter.CompileError
import RowFilter.ParseError

namespace RowFilter

/-- What the program is asked to do. -/
inductive Command
  /-- Write an expression as SQL, perhaps with a table and a list of the allowed properties. -/
  | whereClause (expression : String) (table : Option String) (fields : Option (List String))
  /-- Write a sort order as SQL. -/
  | orderClause (expression : String) (table : Option String)
  /-- Check an expression, and show its tree if asked to. -/
  | check (expression : String) (tree : Bool)
  /-- Keep the rows of an input that an expression matches. -/
  | filter (expression : String) (fields : List String) (input : Option String) (pretty : Bool)
  | manual (category : Option String)
  | version
deriving DecidableEq, Repr

inductive CommandError
  | parse (e : ParseError)
  | compile (e : CompileError)
  /-- A property outside the list of allowed ones. -/
  | unknownProperty (name : String)
  | invalidFieldSpec (spec : String)
  | invalidJson
  | notObjects
  | noInput
  | unknownCategory (name : String)
deriving DecidableEq, Repr

namespace CommandError

def message : CommandError → String
  | parse e => s!"Parse error: {e.message}"
  | compile e => s!"Compile error: {e.message}"
  | unknownProperty name => s!"Unknown property '{name}'"
  | invalidFieldSpec spec =>
    s!"Invalid field spec '{spec}'. Expected Name:type, Name:type? or Name:enum(A|B)"
  | invalidJson => "Invalid JSON: the input is not one JSON value"
  | notObjects => "Input must be a JSON object or an array of objects"
  | noInput => "No input provided. Use --input or pipe JSON to stdin."
  | unknownCategory name =>
    s!"Unknown category: '{name}'\nRun 'sqlexpr docs' to see available categories."

end CommandError

end RowFilter
