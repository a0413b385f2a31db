import RowFilter.Proofs.Counterparts

namespace RowFilter.Condition

/-- Two expressions mean the same in two schemas, where `g` takes indexes in the first schema to
indexes in the second one. Both have conditions, or both have none for a reason of the same kind;
and the conditions hold of the same rows, if those have the same values in the fields that the
first expression names. -/
structure SameMeaning (s t : Schema) (g : Nat → Nat) (e e' : Expr) : Prop where
  accepted : (∃ k, ofExpr s e = .ok k) ↔ ∃ m, ofExpr t e' = .ok m
  unknown : (∃ n, ofExpr s e = .error (.unknownField n)) ↔
    ∃ n, ofExpr t e' = .error (.unknownField n)
  mismatch : (∃ c, ofExpr s e = .error (.mismatch c)) ↔ ∃ c, ofExpr t e' = .error (.mismatch c)
  holds : ∀ k m, ofExpr s e = .ok k → ofExpr t e' = .ok m → ∀ row row' : Row,
    (∀ i, e.Names s i → row i = row' (g i)) → k.holds row = m.holds row'

variable {s t : Schema} {g : Nat → Nat} {e e' : Expr} {R : String → String → Prop}

/-- Names that have a field may be replaced by names of such fields, and a name that the expression
is refused for by a name without a field. -/
theorem sameMeaning_of_renamed (h : e.Renamed R e')
    (hfound : ∀ n n' i f, R n n' → s.resolve n = some (i, f) →
      ∃ f', t.resolve n' = some (g i, f') ∧ f.Alike f')
    (hmissing : ∀ n n', R n n' → s.resolve n = none → ofExpr s e = .error (.unknownField n) →
      t.resolve n' = none) : SameMeaning s t g e e' := by
  -- All that the compilation looks up is named, so only such indexes can get into the conditions.
  have hcarries : s.Carries t (fun n n' => n ∈ e.properties ∧ R n n')
      (fun i j => e.Names s i ∧ j = g i) := by
    rintro n n' i f ⟨hn, hR⟩ hs
    obtain ⟨f', ht, halike⟩ := hfound n n' i f hR hs
    exact ⟨g i, f', ht, ⟨⟨n, hn, f, hs⟩, rfl⟩, halike⟩
  have hfollows := ofExpr_follows hcarries (h.imp fun n hn n' hR => ⟨hn, hR⟩)
  generalize hx : ofExpr s e = x at hfollows
  generalize hy : ofExpr t e' = y at hfollows
  cases hfollows with
  | ok hkm =>
    refine ⟨by simp [hx, hy], by simp [hx, hy], by simp [hx, hy], fun k m hk hm row row' hrow => ?_⟩
    obtain rfl := Except.ok.inj (hx.symm.trans hk)
    obtain rfl := Except.ok.inj (hy.symm.trans hm)
    refine hkm.holds_eq fun i j hij => ?_
    obtain ⟨hnamed, rfl⟩ := hij
    exact hrow i hnamed
  | mismatch c d =>
    exact ⟨by simp [hx, hy], by simp [hx, hy], by simp [hx, hy], by simp [hx]⟩
  | unknown hn hs hmeets =>
    obtain rfl := hmeets (hmissing _ _ hn.2 hs hx)
    exact ⟨by simp [hx, hy], by simp [hx, hy], by simp [hx, hy], by simp [hx]⟩

theorem sameMeaning_of_corresponds (h : e.Renamed (s.Corresponds t g) e') :
    SameMeaning s t g e e' := by
  refine sameMeaning_of_renamed h (fun n n' i f hn hs => ?_) (fun n n' hn hs _ => ?_)
  · cases hn with
    | missing hnone _ =>
      rw [hnone] at hs
      cases hs
    | found hsome ht halike =>
      rw [hsome] at hs
      obtain ⟨rfl, rfl⟩ := Prod.mk.inj (Option.some.inj hs)
      exact ⟨_, ht, halike⟩
  · cases hn with
    | missing _ ht => exact ht
    | found hsome _ _ =>
      rw [hsome] at hs
      cases hs

theorem sameMeaning_of_respelled
    (hfields : List.Forall₂ Field.Respelled s.fields t.fields)
    (h : e.Renamed (fun n n' => sameIgnoringCase n n' = true) e') : SameMeaning s t id e e' :=
  sameMeaning_of_corresponds (h.imp fun _ _ _ hn => Schema.corresponds_of_respelled hn hfields)

/-- Only an expression that is refused for the name of a new field means something else. -/
theorem sameMeaning_append (e : Expr) {more : List Field}
    (h : ∀ n, ofExpr s e = .error (.unknownField n) →
      ∀ f ∈ more, sameIgnoringCase f.name n = false) :
    SameMeaning s ⟨s.fields ++ more⟩ id e e := by
  refine sameMeaning_of_renamed e.renamed_self ?_ ?_
  · rintro n _ i f rfl hs
    exact ⟨f, Schema.resolve_append_of_some hs, .refl f⟩
  · rintro n _ rfl hs hx
    exact Schema.resolve_append_of_none hs (h n hx)

theorem sameMeaning_of_perm (e : Expr) (hs : s.Distinct) (hperm : s.fields.Perm t.fields)
    (hg : ∀ (i : Nat) (f : Field), s.fields[i]? = some f → t.fields[g i]? = some f) :
    SameMeaning s t g e e := by
  refine sameMeaning_of_corresponds (e.renamed_self.imp fun n _ n' hn => ?_)
  subst hn
  exact Schema.corresponds_of_perm hs hperm hg n

/-- Names and the order of fields count by what names are resolved to. An expression means what
another one does in another schema if in all places their names have like fields or none. This is
so when the letters of names change their case, ASCII letters among them; when fields are added
that have no name for which the expression is refused; and when fields that have distinct names are
put in another order. -/
theorem sameMeaning_by_resolution :
    (∀ (s t : Schema) (g : Nat → Nat) (e e' : Expr), e.Renamed (s.Corresponds t g) e' →
      SameMeaning s t g e e') ∧
    (∀ (s t : Schema) (e e' : Expr), List.Forall₂ Field.Respelled s.fields t.fields →
      e.Renamed (fun n n' => sameIgnoringCase n n' = true) e' → SameMeaning s t id e e') ∧
    (∀ a b : String, sameIgnoringAsciiCase a.toList b.toList = true →
      sameIgnoringCase a b = true) ∧
    (∀ (s : Schema) (more : List Field) (e : Expr),
      (∀ n, ofExpr s e = .error (.unknownField n) →
        ∀ f ∈ more, sameIgnoringCase f.name n = false) →
      SameMeaning s ⟨s.fields ++ more⟩ id e e) ∧
    ∀ (s t : Schema) (g : Nat → Nat) (e : Expr), s.Distinct → s.fields.Perm t.fields →
      (∀ (i : Nat) (f : Field), s.fields[i]? = some f → t.fields[g i]? = some f) →
      SameMeaning s t g e e :=
  ⟨fun _ _ _ _ _ h => sameMeaning_of_corresponds h,
    fun _ _ _ _ hfields h => sameMeaning_of_respelled hfields h,
    fun _ _ h => sameIgnoringCase_of_ascii h,
    fun _ _ e h => sameMeaning_append e h,
    fun _ _ _ e hs hperm hg => sameMeaning_of_perm e hs hperm hg⟩

theorem sameMeaning_by_resolution_note :
    let s : Schema := ⟨[⟨"Qty", .integer .u8, true⟩, ⟨"Note", .string, false⟩]⟩
    let t : Schema := ⟨[⟨"Text", .string, false⟩, ⟨"Count", .integer .u8, true⟩]⟩
    let g : Nat → Nat := fun i => 1 - i
    let e : Expr := .binary (.comparison .less) (.property "qty") (.property "Qty")
    let e' : Expr := .binary (.comparison .less) (.property "Count") (.property "COUNT")
    let upper : Expr := .binary (.comparison .less) (.property "QTY") (.property "qTY")
    let more : List Field := [⟨"Open", .boolean, false⟩]
    let k : Condition := .compare .less (.field 0) (.field 0)
    (e.Renamed (s.Corresponds t g) e' ∧ SameMeaning s t g e e') ∧
      (e.Renamed (fun n n' => sameIgnoringCase n n' = true) upper ∧ SameMeaning s s id e upper) ∧
      (ofExpr s e = .ok k ∧ SameMeaning s ⟨s.fields ++ more⟩ id e e) ∧
      s.Distinct ∧ SameMeaning s ⟨s.fields.reverse⟩ g e e := by
  intro s t g e e' upper more k
  obtain ⟨hcorresponds, hrespelled, hascii, happend, hperm⟩ := sameMeaning_by_resolution
  have hcount : ∀ n n', s.resolve n = some (0, ⟨"Qty", .integer .u8, true⟩) →
      t.resolve n' = some (1, ⟨"Count", .integer .u8, true⟩) → s.Corresponds t g n n' :=
    fun n n' hs ht => .found hs ht ⟨rfl, rfl⟩
  have hrenamed : e.Renamed (s.Corresponds t g) e' :=
    .binary _ (.property (hcount _ _ rfl rfl)) (.property (hcount _ _ rfl rfl))
  have hupper : e.Renamed (fun n n' => sameIgnoringCase n n' = true) upper :=
    .binary _ (.property (hascii _ _ rfl)) (.property (hascii _ _ rfl))
  have hsame : List.Forall₂ Field.Respelled s.fields s.fields :=
    .cons ⟨rfl, .refl _⟩ (.cons ⟨rfl, .refl _⟩ .nil)
  have hk : ofExpr s e = .ok k := by rfl
  have hdistinct : s.Distinct := List.pairwise_pair.mpr rfl
  have hg : ∀ (i : Nat) (f : Field), s.fields[i]? = some f →
      s.fields.reverse[g i]? = some f := by
    intro i f hf
    match i with
    | 0 => exact hf
    | 1 => exact hf
    | i + 2 => cases hf
  refine ⟨⟨hrenamed, hcorresponds s t g e e' hrenamed⟩,
    ⟨hupper, hrespelled s s e upper hsame hupper⟩, ⟨hk, happend s more e fun n hn => ?_⟩,
    hdistinct, hperm s _ g e hdistinct (List.reverse_perm s.fields).symm hg⟩
  rw [hk] at hn
  cases hn

end RowFilter.Condition
