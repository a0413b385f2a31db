import RowFilter.Command.Columns
import RowFilter.Proofs.Failure
import RowFilter.Proofs.Names
import RowFilter.Proofs.Written

namespace RowFilter

/-- Reads a delimited identifier behind its opening quote, up to the first quote that is not
doubled. The result is the name and what follows the closing quote. -/
def delimitedBody? : List Char → Option (List Char × List Char)
  | [] => none
  | '"' :: '"' :: cs => (delimitedBody? cs).map fun (name, rest) => ('"' :: name, rest)
  | '"' :: cs => some ([], cs)
  | c :: cs => (delimitedBody? cs).map fun (name, rest) => (c :: name, rest)

/-- Reads a delimited identifier of SQL. -/
def delimitedName? : List Char → Option (List Char × List Char)
  | '"' :: cs => delimitedBody? cs
  | _ => none

/-- Reads a column: a name, or two names with a point between them. -/
def columnNames? (text : List Char) : Option (List (List Char) × List Char) := do
  let (first, rest) ← delimitedName? text
  match rest with
  | '.' :: behind =>
    let (second, rest) ← delimitedName? behind
    return ([first, second], rest)
  | _ => return ([first], rest)

theorem delimitedBody?_double (name : List Char) {rest : List Char}
    (hrest : ∀ c ∈ rest.head?, c ≠ '"') :
    delimitedBody? (Quoted.double '"' name ++ '"' :: rest) = some (name, rest) := by
  induction name with
  | nil =>
    cases rest with
    | nil => rfl
    | cons d rest =>
      have hd : d ≠ '"' := hrest d rfl
      simp [delimitedBody?, hd]
  | cons c name ih =>
    by_cases hc : c = '"'
    · simp only [Quoted.double, hc, if_true, List.cons_append, delimitedBody?, ih, Option.map_some]
    · simp only [Quoted.double, hc, if_false, List.cons_append]
      rw [delimitedBody?]
      · rw [ih]
        rfl
      · exact fun _ h _ => hc h
      · exact hc

/-- A name in quotes is read back, whatever its characters, and ends at its last quote. -/
theorem delimitedName?_enclose (name : List Char) {rest : List Char}
    (hrest : ∀ c ∈ rest.head?, c ≠ '"') :
    delimitedName? (Quoted.enclose '"' name ++ rest) = some (name, rest) := by
  have hform : Quoted.enclose '"' name ++ rest =
      '"' :: (Quoted.double '"' name ++ '"' :: rest) := by simp [Quoted.enclose]
  rw [hform]
  exact delimitedBody?_double name hrest

theorem columnNames?_quoteColumn (table : Option String) (field : String) {rest : List Char}
    (hrest : ∀ c ∈ rest.head?, c ≠ '"' ∧ c ≠ '.') :
    columnNames? (quoteColumn table field ++ rest) =
      some ((table.toList ++ [field]).map String.toList, rest) := by
  have hquote : ∀ c ∈ rest.head?, c ≠ '"' := fun c hc => (hrest c hc).1
  have hfield := delimitedName?_enclose field.toList hquote
  cases table with
  | none =>
    have hpoint : ∀ behind, rest ≠ '.' :: behind := by
      rintro behind rfl
      exact (hrest '.' rfl).2 rfl
    simp [columnNames?, quoteColumn, hfield]
  | some t =>
    have hpoint : ∀ c ∈ ('.' :: (Quoted.enclose '"' field.toList ++ rest)).head?, c ≠ '"' := by
      simp
    have htable := delimitedName?_enclose t.toList hpoint
    simp [columnNames?, quoteColumn, htable, hfield]

/-- The first of some fields that has a name, in any case. -/
def FirstListed (fields : List String) (name field : String) : Prop :=
  sameIgnoringCase field name = true ∧
    ∃ before behind, fields = before ++ field :: behind ∧
      ∀ other ∈ before, sameIgnoringCase other name = false

theorem FirstListed.mem {fields : List String} {name field : String}
    (h : FirstListed fields name field) : field ∈ fields := by
  obtain ⟨_, before, behind, rfl, _⟩ := h
  exact List.mem_append_right _ (List.mem_cons_self)

theorem columnOf_eq_ok {table : Option String} {fields : List String} {name : String}
    {text : List Char} : columnOf table (some fields) name = .ok text ↔
      ∃ field, FirstListed fields name field ∧ quoteColumn table field = text := by
  have hfind : ∀ field, fields.find? (sameIgnoringCase · name) = some field ↔
      FirstListed fields name field := by
    intro field
    simp [List.find?_eq_some_iff_append, FirstListed]
  cases hfound : fields.find? (sameIgnoringCase · name) with
  | none =>
    have hnone : ∀ field, ¬ FirstListed fields name field := by
      intro field hfield
      rw [(hfind field).mpr hfield] at hfound
      cases hfound
    simp [columnOf, hfound, hnone]
  | some found =>
    have hsome : ∀ field, FirstListed fields name field ↔ found = field := by
      intro field
      rw [← hfind, hfound, Option.some_inj]
    simp [columnOf, hfound, hsome]

namespace Expr

variable {R : String → String → Prop} {e e' : Expr}

theorem Renamed.isBinary_eq (h : e.Renamed R e') : e'.isBinary = e.isBinary := by
  cases h <;> rfl

theorem Renamed.isArray_eq (h : e.Renamed R e') : e'.isArray = e.isArray := by
  cases h <;> rfl

theorem Renamed.isConnective_eq (h : e.Renamed R e') : e'.isConnective = e.isConnective := by
  cases h <;> rfl

theorem Renamed.needsGroup_eq (h : e.Renamed R e') (op : BinaryOp) :
    needsGroup op e' = needsGroup op e := by
  unfold needsGroup
  rw [h.isBinary_eq, h.isConnective_eq]

theorem Renamed.lacksArray_eq (h : e.Renamed R e') (op : BinaryOp) :
    lacksArray op e' = lacksArray op e := by
  cases op <;> simp [lacksArray, h.isArray_eq]

theorem Renamed.exists_of_mem (h : e.Renamed R e') {n : String} (hn : n ∈ e.properties) :
    ∃ n', R n n' := by
  induction h with
  | property hR =>
    obtain rfl := List.mem_singleton.mp hn
    exact ⟨_, hR⟩
  | literal l => cases hn
  | array ls => cases hn
  | unary op _ ih => exact ih hn
  | binary op _ _ ihl ihr => exact (List.mem_append.mp hn).elim ihl ihr

/-- The SQL of a renamed unary operation, with the parentheses that the operand had before. -/
theorem Renamed.plainSql_unary {op : UnaryOp} {sql : List Char} (h : e.Renamed R e') :
    (Expr.unary op e').plainSql = .ok sql ↔
      ∃ text, e'.plainSql = .ok text ∧ unarySql op (grouped e.isBinary text) = sql := by
  rw [Expr.plainSql_unary, h.isBinary_eq]

theorem Renamed.plainSql_binary {op : BinaryOp} {l l' r r' : Expr} {sql : List Char}
    (hl : l.Renamed R l') (hr : r.Renamed R r') : (Expr.binary op l' r').plainSql = .ok sql ↔
      lacksArray op r = false ∧ ∃ left right, l'.plainSql = .ok left ∧ r'.plainSql = .ok right ∧
        grouped (needsGroup op l) left ++ (' ' :: op.sql ++ [' '])
          ++ grouped (needsGroup op r) right = sql := by
  rw [Expr.plainSql_binary, hr.lacksArray_eq, hl.needsGroup_eq, hr.needsGroup_eq]

section Columns

variable {ε : Type} {column : String → Except ε (List Char)} {cause : TypeMismatch → ε}
variable {sql : List Char}

theorem exists_renamed_of_toSql (h : e.toSql column (fun m => .error (cause m)) = .ok sql) :
    ∃ e', e.Renamed (fun n n' => column n = .ok n'.toList) e' ∧ e'.plainSql = .ok sql := by
  -- The tree that is looked for takes its names from what the columns give, one property at a time.
  induction e generalizing sql with
  | property name =>
    have hname : column name = .ok (String.ofList sql).toList := by
      rw [String.toList_ofList]
      exact h
    exact ⟨_, .property hname, congrArg Except.ok String.toList_ofList⟩
  | literal l => exact ⟨_, .literal l, congrArg Except.ok (pure_eq_ok.mp h)⟩
  | array ls => exact ⟨_, .array ls, congrArg Except.ok (pure_eq_ok.mp h)⟩
  | unary op e ih =>
    obtain ⟨text, htext, hsql⟩ := toSql_unary_eq_ok.mp h
    obtain ⟨e', hrenamed, he'⟩ := ih htext
    exact ⟨_, .unary op hrenamed, hrenamed.plainSql_unary.mpr ⟨text, he', hsql⟩⟩
  | binary op l r ihl ihr =>
    obtain ⟨hlacks, left, right, hleft, hright, hsql⟩ := toSql_binary_eq_ok.mp h
    obtain ⟨l', hl, hl'⟩ := ihl hleft
    obtain ⟨r', hr, hr'⟩ := ihr hright
    exact ⟨_, .binary op hl hr,
      (hl.plainSql_binary hr).mpr ⟨hlacks, left, right, hl', hr', hsql⟩⟩

theorem Renamed.toSql (h : e.Renamed (fun n n' => column n = .ok n'.toList) e')
    (hsql : e'.plainSql = .ok sql) : e.toSql column (fun m => .error (cause m)) = .ok sql := by
  induction h generalizing sql with
  | property hname =>
    obtain rfl := Except.ok.inj hsql
    exact hname
  | literal l => exact pure_eq_ok.mpr (Except.ok.inj hsql)
  | array ls => exact pure_eq_ok.mpr (Except.ok.inj hsql)
  | unary op hrenamed ih =>
    obtain ⟨text, he', htext⟩ := hrenamed.plainSql_unary.mp hsql
    exact toSql_unary_eq_ok.mpr ⟨text, ih he', htext⟩
  | binary op hl hr ihl ihr =>
    obtain ⟨hlacks, left, right, hl', hr', htext⟩ := (hl.plainSql_binary hr).mp hsql
    exact toSql_binary_eq_ok.mpr ⟨hlacks, left, right, ihl hl', ihr hr', htext⟩

/-- The SQL over columns is that of the expression in which the columns stand for the properties. -/
theorem toSql_eq_ok : e.toSql column (fun m => .error (cause m)) = .ok sql ↔
    ∃ e', e.Renamed (fun n n' => column n = .ok n'.toList) e' ∧ e'.plainSql = .ok sql :=
  ⟨exists_renamed_of_toSql, fun ⟨_, hrenamed, hsql⟩ => hrenamed.toSql hsql⟩

end Columns

end Expr

theorem parseFor_eq_ok {text : String} {e : Expr} :
    parseFor text = .ok e ↔ parseWhere text.toList = .ok e := by
  unfold parseFor
  cases parseWhere text.toList <;> simp [Except.mapError]

/-- The columns of fields that stand for the properties of an expression. -/
def ColumnFor (table : Option String) (fields : List String) (name column : String) : Prop :=
  ∃ field, FirstListed fields name field ∧ column = .ofList (quoteColumn table field)

section Fields

variable {text sql : String} {table : Option String} {fields : List String} {e : Expr}

theorem columnFor_iff {name column : String} :
    ColumnFor table fields name column ↔ columnOf table (some fields) name = .ok column.toList := by
  rw [columnOf_eq_ok]
  unfold ColumnFor
  simp only [← String.toList_inj, String.toList_ofList, eq_comm]

theorem whereSql_eq_ok : whereSql text table (some fields) = .ok sql ↔
    ∃ e e', parseWhere text.toList = .ok e ∧ e.Renamed (ColumnFor table fields) e' ∧
      e'.plainSql = .ok sql.toList := by
  have hcolumns : ∀ e e' : Expr, e.Renamed (ColumnFor table fields) e' ↔
      e.Renamed (fun n n' => columnOf table (some fields) n = .ok n'.toList) e' := by
    intro e e'
    exact ⟨fun h => h.imp fun _ _ _ => columnFor_iff.mp,
      fun h => h.imp fun _ _ _ => columnFor_iff.mpr⟩
  unfold whereSql
  simp only [bind_eq_ok, parseFor_eq_ok, pure_eq_ok, Expr.toSql_eq_ok, hcolumns]
  constructor
  · rintro ⟨e, he, chars, ⟨e', hrenamed, hsql⟩, rfl⟩
    exact ⟨e, e', he, hrenamed, by rwa [String.toList_ofList]⟩
  · rintro ⟨e, e', he, hrenamed, hsql⟩
    exact ⟨e, he, sql.toList, ⟨e', hrenamed, hsql⟩, String.ofList_toList⟩

/-- The listed fields are the only ones that an expression has SQL over: each of its properties is
one of them, in any case, and the SQL is that of the expression in which the column of the first
such field stands in the place of the property. A property that is not listed is refused. A name in
quotes is read as the name, whatever its characters, up to the last quote and no further, and so a
column is read as its table and its field. -/
theorem whereSql_keeps_to_fields (text : String) (table : Option String) (fields : List String) :
    (∀ sql, whereSql text table (some fields) = .ok sql ↔
      ∃ e e', parseWhere text.toList = .ok e ∧ e.Renamed (ColumnFor table fields) e' ∧
        e'.plainSql = .ok sql.toList) ∧
    (∀ e, parseWhere text.toList = .ok e →
      (∀ sql, whereSql text table (some fields) = .ok sql →
        ∀ n ∈ e.properties, ∃ f ∈ fields, sameIgnoringCase f n = true) ∧
      ((∃ n ∈ e.properties, ∀ f ∈ fields, sameIgnoringCase f n = false) →
        ∃ error, whereSql text table (some fields) = .error error)) ∧
    (∀ name rest : List Char, (∀ c ∈ rest.head?, c ≠ '"') →
      delimitedName? (Quoted.enclose '"' name ++ rest) = some (name, rest)) ∧
    ∀ (field : String) (rest : List Char), (∀ c ∈ rest.head?, c ≠ '"' ∧ c ≠ '.') →
      columnNames? (quoteColumn table field ++ rest) =
        some ((table.toList ++ [field]).map String.toList, rest) := by
  have hlisted : ∀ e sql, parseWhere text.toList = .ok e →
      whereSql text table (some fields) = .ok sql →
        ∀ n ∈ e.properties, ∃ f ∈ fields, sameIgnoringCase f n = true := by
    intro e sql he hsql n hn
    obtain ⟨e₁, e', he₁, hrenamed, _⟩ := whereSql_eq_ok.mp hsql
    obtain rfl := Except.ok.inj (he.symm.trans he₁)
    obtain ⟨_, field, hfield, _⟩ := hrenamed.exists_of_mem hn
    exact ⟨field, hfield.mem, hfield.1⟩
  refine ⟨fun sql => whereSql_eq_ok, fun e he => ⟨fun sql => hlisted e sql he, ?_⟩,
    fun name rest => delimitedName?_enclose name,
    fun field rest => columnNames?_quoteColumn table field⟩
  rintro ⟨n, hn, hunlisted⟩
  cases hresult : whereSql text table (some fields) with
  | error error => exact ⟨error, rfl⟩
  | ok sql =>
    obtain ⟨f, hf, hsame⟩ := hlisted e sql he hresult n hn
    rw [hunlisted f hf] at hsame
    cases hsame

end Fields

/-- The table has a quote in its name, and the list has the property in another case. -/
theorem whereSql_keeps_to_fields_order :
    let table := "Or\"ders"
    let fields := ["Id", "OrderNo", "ORDERNO"]
    let e : Expr := .unary .isNull (.property "orderno")
    let other : Expr := .unary .isNull (.property "Note")
    parseWhere "orderno is null".toList = .ok e ∧ parseWhere "Note is null".toList = .ok other ∧
      whereSql "orderno is null" (some table) (some fields) =
        .ok "\"Or\"\"ders\".\"OrderNo\" is null" ∧
      (∀ n ∈ e.properties, ∃ f ∈ fields, sameIgnoringCase f n = true) ∧
      (∃ error, whereSql "Note is null" (some table) (some fields) = .error error) ∧
      delimitedName? (Quoted.enclose '"' table.toList ++ ['.']) = some (table.toList, ['.']) ∧
      columnNames? (quoteColumn (some table) "OrderNo" ++ " is null".toList) =
        some ([table.toList, "OrderNo".toList], " is null".toList) := by
  intro table fields e other
  have he : parseWhere "orderno is null".toList = .ok e := by rfl
  have hother : parseWhere "Note is null".toList = .ok other := by rfl
  have hfirst : FirstListed fields "orderno" "OrderNo" := by
    refine ⟨by decide, ["Id"], ["ORDERNO"], rfl, ?_⟩
    exact List.forall_mem_singleton.mpr (by decide)
  have hcolumn : ColumnFor (some table) fields "orderno" "\"Or\"\"ders\".\"OrderNo\"" :=
    ⟨"OrderNo", hfirst, by decide⟩
  have hunlisted : ∀ f ∈ fields, sameIgnoringCase f "Note" = false := by decide
  obtain ⟨hsql, hproperties, hname, hread⟩ :=
    whereSql_keeps_to_fields "orderno is null" (some table) fields
  have hok := (hsql "\"Or\"\"ders\".\"OrderNo\" is null").mpr
    ⟨e, _, he, .unary .isNull (.property hcolumn), rfl⟩
  have hrefused := (whereSql_keeps_to_fields "Note is null" (some table) fields).2.1 other hother
  exact ⟨he, hother, hok, (hproperties e he).1 _ hok,
    hrefused.2 ⟨"Note", List.mem_singleton.mpr rfl, hunlisted⟩, hname _ _ (by simp),
    hread "OrderNo" _ (by simp)⟩

end RowFilter
