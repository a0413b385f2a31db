import RowFilter.Command
import RowFilter.Expr.Reader
import RowFilter.Expr.Sql
import RowFilter.SortOrder

namespace RowFilter

/-- A column, in quotes, behind its table if there is one. -/
def quoteColumn (table : Option String) (name : String) : List Char :=
  match table with
  | some t => Quoted.enclose '"' t.toList ++ '.' :: Quoted.enclose '"' name.toList
  | none => Quoted.enclose '"' name.toList

/-- The column of a property. Where fields are listed it is the first of them that has the name in
any case. -/
def columnOf (table : Option String) (fields : Option (List String)) (name : String) :
    Except CommandError (List Char) :=
  match fields with
  | none => .ok (quoteColumn table name)
  | some listed =>
    match listed.find? (sameIgnoringCase · name) with
    | some field => .ok (quoteColumn table field)
    | none => .error (.unknownProperty name)

/-- Parses an expression for a command. -/
def parseFor (text : String) : Except CommandError Expr :=
  (parseWhere text.toList).mapError .parse

/-- Writes an expression as SQL. -/
def whereSql (text : String) (table : Option String) (fields : Option (List String)) :
    Except CommandError String := do
  let e ← parseFor text
  let sql ← e.toSql (columnOf table fields) fun cause => .error (.compile (.mismatch cause))
  return .ofList sql

/-- Writes a sort order as SQL. -/
def orderSql (text : String) (table : Option String) : Except CommandError String := do
  let order ← (SortOrder.parse text.toList).mapError .parse
  let sql ← order.toSql fun name => (.ok (quoteColumn table name) : Except CommandError _)
  return .ofList sql

end RowFilter
