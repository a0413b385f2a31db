import RowFilter.Proofs.Checked
import RowFilter.Proofs.Enclosure

namespace RowFilter

namespace Grammar

open Reader (PastNullTest)

/-- A list in brackets, perhaps in parentheses. -/
inductive Bracketed : List Token → Prop
  | list {t u : Token} {ts : List Token} {ls : List Literal} : t.kind = .mark .openBracket →
      Elements ts ls → u.kind = .mark .closeBracket → Bracketed (t :: ts ++ [u])
  | parens {t u : Token} {ts : List Token} : t.kind = .mark .openParen → Bracketed ts →
      u.kind = .mark .closeParen → Bracketed (t :: ts ++ [u])

/-- The tokens begin with a list that is an operand by itself: no null test belongs to it. -/
def StartsWithList (ts : List Token) : Prop :=
  ∃ us vs, ts = us ++ vs ∧ Bracketed us ∧ PastNullTest vs

/-- Behind every `in` stands a list. The list may reach into `rest`, which is what follows. -/
def ListsBehindIn : List Token → List Token → Prop
  | [], _ => True
  | t :: ts, rest =>
    (t.kind = .keyword .among → StartsWithList (ts ++ rest)) ∧ ListsBehindIn ts rest

variable {layer : Layer} {t u : Token} {ts us os rest : List Token} {e r : Expr}

theorem listsBehindIn_cons_of_ne (h : t.kind ≠ .keyword .among) :
    ListsBehindIn (t :: ts) rest ↔ ListsBehindIn ts rest :=
  and_iff_right fun ht => absurd ht h

theorem listsBehindIn_in (h : t.kind = .keyword .among) :
    ListsBehindIn [t] rest ↔ StartsWithList rest := by
  simp [ListsBehindIn, h]

theorem listsBehindIn_append :
    ListsBehindIn (ts ++ us) rest ↔ ListsBehindIn ts (us ++ rest) ∧ ListsBehindIn us rest := by
  induction ts with
  | nil => simp [ListsBehindIn]
  | cons t ts ih => simp only [List.cons_append, ListsBehindIn, ih, List.append_assoc, and_assoc]

theorem listsBehindIn_of_forall (h : ∀ t ∈ ts, t.kind ≠ .keyword .among) :
    ListsBehindIn ts rest := by
  induction ts with
  | nil => trivial
  | cons t ts ih =>
    obtain ⟨ht, hts⟩ := List.forall_mem_cons.mp h
    exact (listsBehindIn_cons_of_ne ht).mpr (ih hts)

theorem IsLiteral.ne_in {l : Literal} (h : IsLiteral t l) : t.kind ≠ .keyword .among := by
  cases h <;> simp_all

theorem Elements.ne_in {ls : List Literal} (h : Elements ts ls) :
    ∀ t ∈ ts, t.kind ≠ .keyword .among := by
  induction h with
  | one hl => exact List.forall_mem_singleton.mpr hl.ne_in
  | more hl hu _ ih =>
    exact List.forall_mem_cons.mpr ⟨hl.ne_in, List.forall_mem_cons.mpr ⟨by simp [hu], ih⟩⟩

theorem Item.ne_in (h : Item ts e) : ∀ t ∈ ts, t.kind ≠ .keyword .among := by
  cases h with
  | property ht => exact List.forall_mem_singleton.mpr (by simp [ht])
  | literal hl => exact List.forall_mem_singleton.mpr hl.ne_in
  | array ht hls hu =>
    refine List.forall_mem_append.mpr ⟨List.forall_mem_cons.mpr ⟨by simp [ht], hls.ne_in⟩, ?_⟩
    exact List.forall_mem_singleton.mpr (by simp [hu])

theorem Item.membershipsHaveArrays (h : Item ts e) : e.MembershipsHaveArrays := by
  cases h <;> trivial

theorem Bracketed.derives (h : Bracketed ts) : ∃ ls, Derives .factor ts (.array ls) := by
  induction h with
  | list ht hls hu => exact ⟨_, .item (.array ht hls hu)⟩
  | parens ht _ hu ih =>
    obtain ⟨ls, hinside⟩ := ih
    exact ⟨ls, .parens ht (hinside.mono (Nat.zero_le _)) hu⟩

theorem Derives.bracketed {ls : List Literal} (h : Derives layer ts (.array ls)) :
    Bracketed ts := by
  generalize harray : Expr.array ls = e at h
  induction h with
  | item h =>
    subst harray
    cases h with
    | array ht hls hu => exact .list ht hls hu
  | parens ht _ hu ih => exact .parens ht (ih harray) hu
  | factor _ ih => exact ih harray
  | negation _ ih => exact ih harray
  | operand _ ih => exact ih harray
  | comparison _ ih => exact ih harray
  | _ => cases harray

/-- An operand is an array when a list stands at its place. What stands there is read in one way
only, so it is enough that the list could be read. -/
theorem Derives.isArray_iff (h : Derives .operand us r) (hrest : PastNullTest rest) :
    r.isArray = true ↔ StartsWithList (us ++ rest) := by
  constructor
  · intro harray
    cases r with
    | array ls => exact ⟨us, rest, rfl, h.bracketed, hrest⟩
    | _ => cases harray
  · rintro ⟨ws, xs, heq, hws, hpast⟩
    obtain ⟨ls, hfactor⟩ := hws.derives
    have hlist : Derives .operand ws (.array ls) := .negation (.factor hfactor)
    let limit := max r.height (Expr.array ls).height
    let room := max us.length ws.length
    have hreads : Reader.Reads limit room .operand us r :=
      Reader.reads_of_derives h (Nat.le_max_left _ _)
        ((nested_length us).mono (Nat.le_max_left _ _))
    have hothers : Reader.Reads limit room .operand ws (.array ls) :=
      Reader.reads_of_derives hlist (Nat.le_max_right _ _)
        ((nested_length ws).mono (Nat.le_max_right _ _))
    have hread := hreads rest hrest
    rw [heq, hothers xs hpast] at hread
    obtain ⟨rfl, _⟩ := Prod.mk.inj (Except.ok.inj hread)
    rfl

theorem Test.listsBehindIn_iff {op : BinaryOp} (h : Test os op) (hr : Derives .operand us r)
    (hrest : PastNullTest rest) :
    ListsBehindIn os (us ++ rest) ↔ ∀ negated, op = .among negated → r.isArray = true := by
  have harray := hr.isArray_iff hrest
  cases h with
  | comparison c ht => exact iff_of_true (listsBehindIn_of_forall (by simp [ht])) (by simp)
  | like ht => exact iff_of_true (listsBehindIn_of_forall (by simp [ht])) (by simp)
  | notLike ht hu => exact iff_of_true (listsBehindIn_of_forall (by simp [ht, hu])) (by simp)
  | among ht => simp [listsBehindIn_in ht, harray]
  | notAmong ht hu =>
    rw [listsBehindIn_cons_of_ne (by simp [ht]), listsBehindIn_in hu]
    simp [harray]

/-- What may follow the tokens of a layer: anything for the layers that end by themselves, and no
null test for the others. -/
def FollowsLayer : Layer → List Token → Prop
  | .factor, _ => True
  | .negation, _ => True
  | _, rest => PastNullTest rest

/-- All membership tests of a tree have arrays when lists stand behind the words `in` of its
tokens. -/
theorem Derives.memberships_iff (h : Derives layer ts e) (hrest : FollowsLayer layer rest) :
    e.MembershipsHaveArrays ↔ ListsBehindIn ts rest := by
  induction h generalizing rest with
  | item h => exact iff_of_true h.membershipsHaveArrays (listsBehindIn_of_forall h.ne_in)
  | @parens t u ts e ht _ hu ih =>
    have hclose : ∀ v ∈ [u], v.kind ≠ .keyword .among :=
      List.forall_mem_singleton.mpr (by simp [hu])
    have hpast : PastNullTest (u :: rest) := Reader.pastNullTest_of_head (by simp [hu])
    have hinside := ih hpast
    rw [List.cons_append, listsBehindIn_cons_of_ne (by simp [ht]), listsBehindIn_append, hinside]
    exact (and_iff_left (listsBehindIn_of_forall hclose)).symm
  | factor _ ih => exact ih trivial
  | not ht _ ih =>
    rw [listsBehindIn_cons_of_ne (by simp [ht])]
    exact ih trivial
  | negation _ ih => exact ih trivial
  | isNull _ ht hu ih =>
    rw [listsBehindIn_append, ← ih trivial]
    exact (and_iff_left (listsBehindIn_of_forall (by simp [ht, hu]))).symm
  | isNotNull _ ht hu hv ih =>
    rw [listsBehindIn_append, ← ih trivial]
    exact (and_iff_left (listsBehindIn_of_forall (by simp [ht, hu, hv]))).symm
  | operand _ ih => exact ih hrest
  | test _ ho hr ihl ihr =>
    rw [listsBehindIn_append, listsBehindIn_append, ho.listsBehindIn_iff hr hrest,
      ← ihl (Reader.pastNullTest_of_test ho _), ← ihr hrest, and_assoc, and_left_comm]
    rfl
  | comparison _ ih => exact ih hrest
  | @connective t ts us l r c _ ht _ ihl ihr =>
    have hconnective : ListsBehindIn [t] (us ++ rest) :=
      listsBehindIn_of_forall (List.forall_mem_singleton.mpr
        (by cases c <;> simp [ht, Connective.keyword]))
    rw [listsBehindIn_append, listsBehindIn_append, List.singleton_append,
      ← ihl (Reader.pastNullTest_of_connective ht _), ← ihr hrest]
    simp [Expr.MembershipsHaveArrays, hconnective]

end Grammar

/-- A program with a state that fails from every state on. -/
def Fails {σ ε α : Type} (x : ExceptT ε (StateM σ) α) : Prop :=
  ∀ before, ∃ e behind, x.run.run before = (.error e, behind)

section Programs

variable {σ ε α β : Type} {x : ExceptT ε (StateM σ) α} {f : α → ExceptT ε (StateM σ) β}

theorem Fails.bind (h : Fails x) : Fails (x >>= f) := by
  intro before
  obtain ⟨e, behind, he⟩ := h before
  exact ⟨e, behind, run_bind_of_error he⟩

theorem Succeeds.bind_fails (hx : Succeeds x) (hf : ∀ a, Fails (f a)) : Fails (x >>= f) := by
  intro before
  obtain ⟨a, between, ha⟩ := hx before
  obtain ⟨e, behind, he⟩ := hf a between
  refine ⟨e, behind, ?_⟩
  rw [run_bind_of_ok ha, he]

end Programs

/-- There is no SQL for a membership test without an array. -/
theorem Expr.fails_toSql {σ ε : Type} {column : String → ExceptT ε (StateM σ) (List Char)}
    {refuse : TypeMismatch → ExceptT ε (StateM σ) (List Char)} {e : Expr}
    (h : ¬ e.MembershipsHaveArrays) (hcolumn : ∀ n, Succeeds (column n))
    (hrefuse : ∀ cause, Fails (refuse cause)) : Fails (e.toSql column refuse) := by
  induction e with
  | property name => exact absurd trivial h
  | literal l => exact absurd trivial h
  | array ls => exact absurd trivial h
  | unary op e ih => exact (ih h).bind
  | binary op l r ihl ihr =>
    cases hlacks : lacksArray op r with
    | true =>
      rw [toSql_refused hlacks]
      exact hrefuse _
    | false =>
      rw [toSql_binary hlacks]
      by_cases hl : l.MembershipsHaveArrays
      · have hr : ¬ r.MembershipsHaveArrays :=
          fun hr => h ⟨lacksArray_eq_false.mp hlacks, hl, hr⟩
        exact (succeeds_toSql hl hcolumn).bind_fails fun _ => (ihr hr).bind
      · exact (ihl hl).bind

open Grammar

/-- In an accepted text all membership tests have arrays just when a list stands behind each `in`.
Whether they do is looked at later: the text has SQL exactly when they all have arrays, and it has
a condition only if arrays stand there and nowhere else. -/
theorem parseWhere_memberships {text : List Char} {e : Expr} (h : parseWhere text = .ok e) :
    (∃ ts, tokenize text = .ok ts ∧
      (e.MembershipsHaveArrays ↔ ListsBehindIn ts [])) ∧
    (∀ (σ ε : Type) (column : String → ExceptT ε (StateM σ) (List Char))
      (refuse : TypeMismatch → ExceptT ε (StateM σ) (List Char)),
      (∀ n, Succeeds (column n)) → (∀ cause, Fails (refuse cause)) →
        (e.MembershipsHaveArrays → Succeeds (e.toSql column refuse)) ∧
          (¬ e.MembershipsHaveArrays → Fails (e.toSql column refuse))) ∧
    ∀ s k, Condition.ofExpr s e = .ok k → e.ArraysPlaced ∧ e.MembershipsHaveArrays := by
  refine ⟨?_, fun σ ε column refuse hcolumn hrefuse => ?_, fun s k hk => ?_⟩
  · obtain ⟨ts, hts, hw⟩ := parseWhere_eq_ok.mp h
    exact ⟨ts, hts, hw.derives.memberships_iff (fun t ht => by cases ht)⟩
  · exact ⟨fun harrays => Expr.succeeds_toSql harrays hcolumn,
      fun hlacks => Expr.fails_toSql hlacks hcolumn hrefuse⟩
  · obtain ⟨r, hstated, husable⟩ := Condition.ofExpr_eq_ok.mp hk
    exact ⟨Condition.arraysPlaced_of_stated hstated husable.ne_array,
      (Condition.checkedIn_of_stated hstated).memberships⟩

theorem parseWhere_memberships_parens :
    let e : Expr := .binary (.among true) (.property "A") (.array [.number .one])
    parseWhere "A not in ([1])".toList = .ok e ∧ e.MembershipsHaveArrays ∧
      ∃ ts, tokenize "A not in ([1])".toList = .ok ts ∧ ListsBehindIn ts [] := by
  intro e
  have hproperty : Item [⟨.identifier, ['A'], .start⟩] (.property "A") := .property rfl
  have hone : Elements [⟨.number, ['1'], .start⟩] [.number .one] := .one (.number rfl rfl)
  have hlist : Item (Mark.openBracket.word :: [_] ++ [Mark.closeBracket.word])
      (.array [.number .one]) := .array rfl hone rfl
  have htest : Test [Keyword.not.word, Keyword.among.word] (.among true) := .notAmong rfl rfl
  have hderives : Derives .comparison (_ ++ _ ++ enclosedWords _) e :=
    (hproperty.derives .comparison).test htest (hlist.derives .expression).enclosed
  have hparse : parseWhere "A not in ([1])".toList = .ok e :=
    parseWhere_of_derives rfl (.comparison hderives) (by decide) (by decide)
  have harrays : e.MembershipsHaveArrays := by simp [e, Expr.MembershipsHaveArrays, Expr.isArray]
  obtain ⟨⟨ts, hts, hlists⟩, _⟩ := parseWhere_memberships hparse
  exact ⟨hparse, harrays, ts, hts, hlists.mp harrays⟩

/-- A membership in a property is accepted. -/
theorem parseWhere_accepts_in_property :
    let e : Expr := .binary (.among false) (.property "A") (.property "B")
    parseWhere "A in B".toList = .ok e ∧ ¬ (e.ArraysPlaced ∧ e.MembershipsHaveArrays) := by
  intro e
  have hleft : Item [⟨.identifier, ['A'], .start⟩] (.property "A") := .property rfl
  have hright : Item [⟨.identifier, ['B'], .start⟩] (.property "B") := .property rfl
  have htest : Test [Keyword.among.word] (.among false) := .among rfl
  have hderives : Derives .comparison _ e :=
    (hleft.derives .comparison).test htest (hright.derives .operand)
  have hlacks : ¬ e.MembershipsHaveArrays := by
    simp [e, Expr.MembershipsHaveArrays, Expr.isArray]
  exact ⟨parseWhere_of_derives rfl (.comparison hderives) (by decide) (by decide),
    fun h => hlacks h.2⟩

end RowFilter
