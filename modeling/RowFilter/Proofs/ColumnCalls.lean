import RowFilter.Proofs.Checked
import RowFilter.Proofs.Columns

namespace RowFilter

/-- What the writer does on the way through an expression: it asks for the column of a property, or
refuses a membership test. -/
inductive SqlStep
  | column (name : String)
  | refusal (cause : TypeMismatch)

/-- The name that a step asks about. -/
def SqlStep.name? : SqlStep → Option String
  | column name => some name
  | refusal _ => none

/-- The steps of the writer in their order, up to the end of the expression. A membership test
without an array is refused before its operands have their turn. -/
def Expr.sqlSteps : Expr → List SqlStep
  | property name => [.column name]
  | literal _ => []
  | array _ => []
  | unary _ e => e.sqlSteps
  | binary op l r =>
    (if lacksArray op r then [.refusal (.membershipArray op r)] else []) ++
      (l.sqlSteps ++ r.sqlSteps)

section Columns

variable {σ ε : Type} (column : String → ExceptT ε (StateM σ) (List Char))

/-- Some names in a row have the columns `answers`, each from the state that the one before it has
left behind. -/
inductive Answered : σ → List String → List String → σ → Prop
  | nil {before : σ} : Answered before [] [] before
  | cons {before between behind : σ} {name answer : String} {names answers : List String} :
      (column name).run.run before = (.ok answer.toList, between) →
      Answered between names answers behind →
      Answered before (name :: names) (answer :: answers) behind

/-- The first step that fails is the refusal of a membership test or the failure of a column. -/
inductive FailsFirst (cause : TypeMismatch → ε) (before : σ) (steps : List SqlStep) (error : ε)
    (behind : σ) : Prop
  | refused (names : List String) {answers : List String} {m : TypeMismatch} {rest : List SqlStep} :
      steps = names.map .column ++ .refusal m :: rest →
      Answered column before names answers behind → error = cause m →
      FailsFirst cause before steps error behind
  | unnamed (names : List String) {answers : List String} {name : String} {rest : List SqlStep}
      {between : σ} :
      steps = names.map .column ++ .column name :: rest →
      Answered column before names answers between →
      (column name).run.run between = (.error error, behind) →
      FailsFirst cause before steps error behind

/-- Takes steps up to the first one that fails. The result is the columns in their order. -/
def takeSteps (cause : TypeMismatch → ε) : List SqlStep → ExceptT ε (StateM σ) (List String)
  | [] => pure []
  | .refusal m :: _ => throw (cause m)
  | .column name :: steps => do
    let answer ← column name
    let answers ← takeSteps cause steps
    return .ofList answer :: answers

end Columns

variable {σ ε : Type} {column : String → ExceptT ε (StateM σ) (List Char)}
variable {cause : TypeMismatch → ε} {before between behind : σ} {steps : List SqlStep} {error : ε}

section Steps

variable {name : String}

theorem takeSteps_append (steps more : List SqlStep) : takeSteps column cause (steps ++ more) = do
    let answers ← takeSteps column cause steps
    let others ← takeSteps column cause more
    return answers ++ others := by
  induction steps with
  | nil => simp [takeSteps]
  | cons step steps ih =>
    cases step with
    | refusal m => rfl
    | column name => simp [takeSteps, ih]

/-- All steps succeed when they are names that have columns. -/
theorem takeSteps_eq_ok {answers : List String} :
    (takeSteps column cause steps).run.run before = (.ok answers, behind) ↔
      ∃ names, steps = names.map .column ∧ Answered column before names answers behind := by
  constructor
  · intro h
    induction steps generalizing before answers with
    | nil =>
      cases h
      exact ⟨[], rfl, .nil⟩
    | cons step steps ih =>
      cases step with
      | refusal m => cases h
      | column name =>
        obtain ⟨answer, between, hname, h⟩ := run_bind_eq_ok.mp h
        obtain ⟨others, _, hothers, h⟩ := run_bind_eq_ok.mp h
        cases h
        obtain ⟨names, rfl, hnames⟩ := ih hothers
        refine ⟨name :: names, rfl, .cons ?_ hnames⟩
        rwa [String.toList_ofList]
  · rintro ⟨names, rfl, h⟩
    induction h with
    | nil => rfl
    | cons hname _ ih =>
      refine run_bind_eq_ok.mpr ⟨_, _, hname, run_bind_eq_ok.mpr ⟨_, _, ih, ?_⟩⟩
      rw [String.ofList_toList]
      rfl

theorem FailsFirst.behind_column {answer : List Char}
    (hname : (column name).run.run before = (.ok answer, between))
    (h : FailsFirst column cause between steps error behind) :
    FailsFirst column cause before (.column name :: steps) error behind := by
  have hanswer : (column name).run.run before = (.ok (String.ofList answer).toList, between) := by
    rwa [String.toList_ofList]
  cases h with
  | refused names hsteps hnames herror =>
    exact .refused (name :: names) (congrArg _ hsteps) (.cons hanswer hnames) herror
  | unnamed names hsteps hnames hfails =>
    exact .unnamed (name :: names) (congrArg _ hsteps) (.cons hanswer hnames) hfails

theorem takeSteps_of_answered {names answers : List String}
    (h : Answered column before names answers between)
    (hrest : (takeSteps column cause steps).run.run between = (.error error, behind)) :
    (takeSteps column cause (names.map .column ++ steps)).run.run before =
      (.error error, behind) := by
  rw [takeSteps_append, run_bind_of_ok (takeSteps_eq_ok.mpr ⟨names, rfl, h⟩),
    run_bind_of_error hrest]

/-- Steps fail with the error of the first one that does. -/
theorem takeSteps_eq_error :
    (takeSteps column cause steps).run.run before = (.error error, behind) ↔
      FailsFirst column cause before steps error behind := by
  constructor
  · intro h
    induction steps generalizing before with
    | nil => cases h
    | cons step steps ih =>
      cases step with
      | refusal m =>
        cases h
        exact .refused [] rfl .nil rfl
      | column name =>
        rcases run_bind_eq_error.mp h with hname | ⟨answer, between, hname, hrest⟩
        · exact .unnamed [] rfl .nil hname
        · rcases run_bind_eq_error.mp hrest with hrest | ⟨_, _, _, hpure⟩
          · exact (ih hrest).behind_column hname
          · cases hpure
  · intro h
    cases h with
    | refused _ hsteps hnames herror =>
      rw [hsteps, herror]
      exact takeSteps_of_answered hnames rfl
    | unnamed _ hsteps hnames hfails =>
      rw [hsteps]
      exact takeSteps_of_answered hnames (run_bind_of_error hfails)

end Steps

namespace Expr

variable {e e' e'' l r : Expr}

/-- Every property is asked about once, from left to right. -/
theorem names_sqlSteps (e : Expr) : e.sqlSteps.filterMap SqlStep.name? = e.properties := by
  induction e with
  | property name => rfl
  | literal l => rfl
  | array ls => rfl
  | unary op e ih => exact ih
  | binary op l r ihl ihr =>
    rw [sqlSteps, properties, List.filterMap_append, List.filterMap_append, ihl, ihr]
    cases lacksArray op r <;> rfl

/-- The steps are nothing but the properties where all membership tests have arrays. -/
theorem sqlSteps_eq_map {names : List String} :
    e.sqlSteps = names.map .column ↔ e.MembershipsHaveArrays ∧ names = e.properties := by
  induction e generalizing names with
  | property name =>
    rw [sqlSteps, MembershipsHaveArrays, properties, true_and, eq_comm, List.map_eq_singleton_iff]
    simp
  | literal l => simp [sqlSteps, MembershipsHaveArrays, properties]
  | array ls => simp [sqlSteps, MembershipsHaveArrays, properties]
  | unary op e ih => exact ih
  | binary op l r ihl ihr =>
    rw [sqlSteps, MembershipsHaveArrays, ← lacksArray_eq_false, properties]
    cases hlacks : lacksArray op r with
    | true =>
      have hrefusal : ∀ m, SqlStep.refusal m ∉ names.map .column := by simp
      constructor
      · intro h
        exact absurd (h ▸ List.mem_cons_self) (hrefusal (.membershipArray op r))
      · rintro ⟨⟨h, _⟩, _⟩
        cases h
    | false =>
      simp only [Bool.false_eq_true, if_false, List.nil_append, true_and]
      constructor
      · intro h
        obtain ⟨lefts, rights, rfl, hl, hr⟩ := List.map_eq_append_iff.mp h.symm
        obtain ⟨hleft, rfl⟩ := ihl.mp hl.symm
        obtain ⟨hright, rfl⟩ := ihr.mp hr.symm
        exact ⟨⟨hleft, hright⟩, rfl⟩
      · rintro ⟨⟨hleft, hright⟩, rfl⟩
        rw [ihl.mpr ⟨hleft, rfl⟩, ihr.mpr ⟨hright, rfl⟩, List.map_append]

theorem Renamed.length_properties {R : String → String → Prop} (h : e.Renamed R e') :
    e'.properties.length = e.properties.length := by
  induction h with
  | binary op _ _ ihl ihr => simp only [properties, List.length_append, ihl, ihr]
  | unary op _ ih => exact ih
  | _ => rfl

/-- The same names in the same tree are the same tree. -/
theorem Renamed.eq_of_properties {R T : String → String → Prop} (h : e.Renamed R e')
    (h' : e.Renamed T e'') (hnames : e'.properties = e''.properties) : e' = e'' := by
  induction h generalizing e'' with
  | property _ =>
    cases h' with
    | property _ => rw [List.singleton_inj.mp hnames]
  | literal l =>
    cases h' with
    | literal _ => rfl
  | array ls =>
    cases h' with
    | array _ => rfl
  | unary op _ ih =>
    cases h' with
    | unary _ h' => rw [ih h' hnames]
  | binary op hl _ ihl ihr =>
    cases h' with
    | binary _ hl' hr' =>
      have hlength := hl.length_properties.trans hl'.length_properties.symm
      obtain ⟨hleft, hright⟩ := List.append_inj hnames hlength
      rw [ihl hl' hleft, ihr hr' hright]

theorem Renamed.membershipsHaveArrays {R : String → String → Prop} {sql : List Char}
    (h : e.Renamed R e') (hsql : e'.plainSql = .ok sql) : e.MembershipsHaveArrays := by
  induction h generalizing sql with
  | property _ => trivial
  | literal l => trivial
  | array ls => trivial
  | unary op hrenamed ih =>
    obtain ⟨_, hinner, _⟩ := hrenamed.plainSql_unary.mp hsql
    exact ih hinner
  | binary op hl hr ihl ihr =>
    obtain ⟨hlacks, _, _, hleft, hright, _⟩ := (hl.plainSql_binary hr).mp hsql
    exact ⟨lacksArray_eq_false.mp hlacks, ihl hleft, ihr hright⟩

/-- What comes of writing an expression where its steps have the result `steps`. -/
inductive Outcome (e : Expr) (steps : Except ε (List String) × σ)
    (text : Except ε (List Char) × σ) : Prop
  | written {e' : Expr} {sql : List Char} {behind : σ} : e.Renamed (fun _ _ => True) e' →
      e'.plainSql = .ok sql → steps = (.ok e'.properties, behind) → text = (.ok sql, behind) →
      Outcome e steps text
  | failed {error : ε} {behind : σ} : steps = (.error error, behind) →
      text = (.error error, behind) → Outcome e steps text

/-- The writer takes the steps of an expression and writes the columns in their places. -/
theorem outcome_toSql (column : String → ExceptT ε (StateM σ) (List Char))
    (cause : TypeMismatch → ε) (e : Expr) (before : σ) : e.Outcome
      ((takeSteps column cause e.sqlSteps).run.run before)
      ((e.toSql column fun m => throw (cause m)).run.run before) := by
  induction e generalizing before with
  | property name =>
    cases hname : (column name).run.run before with
    | mk result between =>
      cases result with
      | error error => exact .failed (run_bind_of_error hname) hname
      | ok answer =>
        have hsql : (property (.ofList answer)).plainSql = .ok answer :=
          congrArg Except.ok String.toList_ofList
        exact .written (.property trivial) hsql (run_bind_of_ok hname) hname
  | literal l => exact .written (.literal l) rfl rfl rfl
  | array ls => exact .written (.array ls) rfl rfl rfl
  | unary op e ih =>
    cases ih before with
    | failed hsteps htext => exact .failed hsteps (run_bind_of_error htext)
    | written hrenamed hsql hsteps htext =>
      refine .written (.unary op hrenamed) (hrenamed.plainSql_unary.mpr ⟨_, hsql, rfl⟩) hsteps ?_
      rw [toSql, run_bind_of_ok htext]
      rfl
  | binary op l r ihl ihr =>
    cases hlacks : lacksArray op r with
    | true =>
      rw [sqlSteps, hlacks, toSql_refused hlacks]
      exact .failed rfl rfl
    | false =>
      rw [sqlSteps, hlacks, toSql_binary hlacks]
      simp only [Bool.false_eq_true, if_false, List.nil_append]
      rw [takeSteps_append]
      cases ihl before with
      | failed hsteps htext => exact .failed (run_bind_of_error hsteps) (run_bind_of_error htext)
      | @written l' left between hl hleft hsteps htext =>
        rw [run_bind_of_ok hsteps, run_bind_of_ok htext]
        cases ihr between with
        | failed hsteps htext => exact .failed (run_bind_of_error hsteps) (run_bind_of_error htext)
        | @written r' right behind hr hright hsteps htext =>
          rw [run_bind_of_ok hsteps, run_bind_of_ok htext]
          have hbinary := (hl.plainSql_binary hr).mpr ⟨hlacks, left, right, hleft, hright, rfl⟩
          exact .written (.binary op hl hr) hbinary rfl rfl

theorem takeSteps_sqlSteps_eq_ok {answers : List String} :
    (takeSteps column cause e.sqlSteps).run.run before = (.ok answers, behind) ↔
      e.MembershipsHaveArrays ∧ Answered column before e.properties answers behind := by
  rw [takeSteps_eq_ok]
  constructor
  · rintro ⟨names, hnames, hanswered⟩
    obtain ⟨hmemberships, rfl⟩ := sqlSteps_eq_map.mp hnames
    exact ⟨hmemberships, hanswered⟩
  · rintro ⟨hmemberships, hanswered⟩
    exact ⟨_, sqlSteps_eq_map.mpr ⟨hmemberships, rfl⟩, hanswered⟩

/-- Where all steps succeed, the SQL is that of the tree with the columns in it. -/
theorem run_toSql_eq_ok {sql : List Char} :
    (e.toSql column fun m => throw (cause m)).run.run before = (.ok sql, behind) ↔
      ∃ e', e.Renamed (fun _ _ => True) e' ∧
        Answered column before e.properties e'.properties behind ∧ e'.plainSql = .ok sql := by
  have houtcome := outcome_toSql column cause e before
  constructor
  · intro h
    cases houtcome with
    | failed _ htext => cases h.symm.trans htext
    | written hrenamed hsql hsteps htext =>
      cases h.symm.trans htext
      exact ⟨_, hrenamed, (takeSteps_sqlSteps_eq_ok.mp hsteps).2, hsql⟩
  · rintro ⟨e', hrenamed, hanswered, hsql⟩
    have hmemberships := hrenamed.membershipsHaveArrays hsql
    have hok : (takeSteps column cause e.sqlSteps).run.run before = _ :=
      takeSteps_sqlSteps_eq_ok.mpr ⟨hmemberships, hanswered⟩
    cases houtcome with
    | failed hsteps _ => cases hok.symm.trans hsteps
    | written hother hothersql hsteps htext =>
      obtain ⟨hanswers, rfl⟩ := Prod.mk.inj (hok.symm.trans hsteps)
      obtain rfl := hrenamed.eq_of_properties hother (Except.ok.inj hanswers)
      obtain rfl := Except.ok.inj (hsql.symm.trans hothersql)
      exact htext

theorem run_toSql_eq_error :
    (e.toSql column fun m => throw (cause m)).run.run before = (.error error, behind) ↔
      FailsFirst column cause before e.sqlSteps error behind := by
  rw [← takeSteps_eq_error]
  cases outcome_toSql column cause e before with
  | written _ _ hsteps htext =>
    constructor
    · intro h
      cases h.symm.trans htext
    · intro h
      cases h.symm.trans hsteps
  | failed hsteps htext =>
    rw [hsteps, htext]
    constructor
    · intro h
      cases h
      rfl
    · intro h
      cases h
      rfl

/-- The columns are asked for from left to right, once for each property. There is SQL when no
membership test lacks its array and no column fails, and it is that of the expression in which the
columns stand in the places of the properties. Otherwise the error is the first one on the way, that
of a column as it is. -/
theorem toSql_asks_in_order (column : String → ExceptT ε (StateM σ) (List Char))
    (cause : TypeMismatch → ε) (e : Expr) (before : σ) :
    let run := (e.toSql column fun m => throw (cause m)).run.run before
    e.sqlSteps.filterMap SqlStep.name? = e.properties ∧
    (∀ sql behind, run = (.ok sql, behind) ↔
      ∃ e', e.Renamed (fun _ _ => True) e' ∧
        Answered column before e.properties e'.properties behind ∧ e'.plainSql = .ok sql) ∧
    (∀ error behind, run = (.error error, behind) ↔
      FailsFirst column cause before e.sqlSteps error behind) ∧
    ((∃ sql behind, run = (.ok sql, behind)) ↔
      e.MembershipsHaveArrays ∧
        ∃ answers behind, Answered column before e.properties answers behind) := by
  intro run
  refine ⟨names_sqlSteps e, fun sql behind => run_toSql_eq_ok,
    fun error behind => run_toSql_eq_error, ?_⟩
  constructor
  · rintro ⟨sql, behind, h⟩
    obtain ⟨e', hrenamed, hanswered, hsql⟩ := run_toSql_eq_ok.mp h
    exact ⟨hrenamed.membershipsHaveArrays hsql, _, _, hanswered⟩
  · rintro ⟨hmemberships, answers, behind, hanswered⟩
    have hok : (takeSteps column cause e.sqlSteps).run.run before = _ :=
      takeSteps_sqlSteps_eq_ok.mpr ⟨hmemberships, hanswered⟩
    cases outcome_toSql column cause e before with
    | failed hsteps _ => cases hok.symm.trans hsteps
    | written _ _ _ htext => exact ⟨_, _, htext⟩

end Expr

end RowFilter
