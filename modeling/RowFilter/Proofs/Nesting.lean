import RowFilter.Proofs.Grammar

namespace RowFilter.Grammar

/-- The parentheses that a token opens, less those that it closes. -/
def opens (t : Token) : Int :=
  if t.kind = .mark .openParen then 1 else if t.kind = .mark .closeParen then -1 else 0

/-- How many parentheses are open behind some tokens. -/
def depth : List Token → Int
  | [] => 0
  | t :: ts => opens t + depth ts

/-- At no point are more than `room` parentheses open. -/
def Nested (room : Nat) (ts : List Token) : Prop :=
  ∀ us, us <+: ts → depth us ≤ room

@[simp] theorem depth_nil : depth [] = 0 := rfl

@[simp] theorem depth_cons (t : Token) (ts : List Token) :
    depth (t :: ts) = opens t + depth ts := rfl

@[simp] theorem depth_append (ts us : List Token) : depth (ts ++ us) = depth ts + depth us := by
  induction ts with
  | nil => simp
  | cons t ts ih =>
    simp only [List.cons_append, depth_cons, ih]
    omega

theorem opens_of_openParen {t : Token} (h : t.kind = .mark .openParen) : opens t = 1 := by
  simp [opens, h]

theorem opens_of_closeParen {t : Token} (h : t.kind = .mark .closeParen) : opens t = -1 := by
  simp [opens, h]

theorem prefix_append_cases {α : Type} {us ts vs : List α} (h : us <+: ts ++ vs) :
    us <+: ts ∨ ∃ ws, us = ts ++ ws ∧ ws <+: vs := by
  obtain ⟨xs, hx⟩ := h
  rcases List.append_eq_append_iff.mp hx with ⟨ws, hw, _⟩ | ⟨ws, hw, hv⟩
  · exact .inl ⟨ws, hw.symm⟩
  · exact .inr ⟨ws, hw, xs, hv.symm⟩

variable {room : Nat} {t : Token} {ts us : List Token}

theorem opens_of_kind {u : Token} (h : u.kind = t.kind) : opens u = opens t := by
  simp only [opens, h]

theorem depth_of_kinds (h : us.map Token.kind = ts.map Token.kind) : depth us = depth ts := by
  induction ts generalizing us with
  | nil => rw [List.map_eq_nil_iff.mp h]
  | cons t ts ih =>
    obtain ⟨u, us, rfl, hu, hus⟩ := List.map_eq_cons_iff.mp h
    rw [depth_cons, depth_cons, opens_of_kind hu, ih hus]

theorem nested_nil : Nested room [] := by
  intro us h
  simp [List.prefix_nil.mp h]

theorem Nested.mono {more : Nat} (h : Nested room ts) (hmore : room ≤ more) : Nested more ts := by
  intro us hus
  have hle := h us hus
  omega

theorem nested_append (hts : depth ts = 0) :
    Nested room (ts ++ us) ↔ Nested room ts ∧ Nested room us := by
  constructor
  · intro h
    refine ⟨fun vs hv => h vs (hv.trans (List.prefix_append ts us)), fun vs hv => ?_⟩
    have hle := h (ts ++ vs) ((List.prefix_append_right_inj ts).mpr hv)
    rw [depth_append] at hle
    omega
  · rintro ⟨ht, hu⟩ vs hv
    rcases prefix_append_cases hv with hv | ⟨ws, rfl, hw⟩
    · exact ht vs hv
    · have hle := hu ws hw
      rw [depth_append]
      omega

theorem Nested.sides {os : List Token} (h : Nested room (ts ++ os ++ us)) (hts : depth ts = 0)
    (hos : depth os = 0) : Nested room ts ∧ Nested room us := by
  obtain ⟨hleft, hright⟩ := (nested_append (by simp [hts, hos])).mp h
  exact ⟨((nested_append hts).mp hleft).1, hright⟩

theorem nested_cons_of_flat (ht : opens t = 0) : Nested room (t :: ts) ↔ Nested room ts := by
  have h : Nested room ([t] ++ ts) ↔ Nested room [t] ∧ Nested room ts :=
    nested_append (by simp [ht])
  have hone : Nested room [t] := by
    intro vs hv
    rcases List.prefix_cons_iff.mp hv with rfl | ⟨ws, rfl, hw⟩
    · simp
    · simp [List.prefix_nil.mp hw, ht]
  simpa [hone] using h

/-- Tokens that are no parentheses leave room for as many as before. -/
theorem nested_of_flat (h : ∀ t ∈ ts, opens t = 0) : Nested room ts := by
  induction ts with
  | nil => exact nested_nil
  | cons t ts ih =>
    rw [nested_cons_of_flat (h t (by simp))]
    exact ih fun u hu => h u (by simp [hu])

theorem depth_of_flat (h : ∀ t ∈ ts, opens t = 0) : depth ts = 0 := by
  induction ts with
  | nil => rfl
  | cons t ts ih => simp [h t (by simp), ih fun u hu => h u (by simp [hu])]

/-- A pair of parentheses takes one from the room. -/
theorem nested_parens {u : Token} (ht : t.kind = .mark .openParen) (hu : u.kind = .mark .closeParen)
    (hts : depth ts = 0) :
    Nested room (t :: ts ++ [u]) ↔ ∃ inner, room = inner + 1 ∧ Nested inner ts := by
  have hopen := opens_of_openParen ht
  have hclose := opens_of_closeParen hu
  constructor
  · intro h
    have hone := h [t] (by simp)
    simp only [depth_cons, depth_nil, hopen] at hone
    obtain ⟨inner, rfl⟩ : ∃ inner, room = inner + 1 := ⟨room - 1, by omega⟩
    refine ⟨inner, rfl, fun vs hv => ?_⟩
    have hle := h (t :: vs)
      (List.prefix_append_of_prefix ((List.prefix_cons_inj t).mpr hv))
    rw [depth_cons, hopen] at hle
    omega
  · rintro ⟨inner, rfl, h⟩ vs hv
    rcases List.prefix_cons_iff.mp hv with rfl | ⟨ws, rfl, hw⟩
    · simp
      omega
    · rw [depth_cons, hopen]
      rcases prefix_append_cases hw with hw | ⟨xs, rfl, hx⟩
      · have hle := h ws hw
        omega
      · have hxs : depth xs ≤ 0 := by
          rcases List.prefix_cons_iff.mp hx with rfl | ⟨ys, rfl, hy⟩
          · simp
          · simp [List.prefix_nil.mp hy, hclose]
        rw [depth_append]
        omega

/-- Every parenthesis has its partner. -/
structure Balanced (ts : List Token) : Prop where
  depth_eq : depth ts = 0
  nonneg : ∀ us, us <+: ts → 0 ≤ depth us

theorem balanced_of_flat (h : ∀ t ∈ ts, opens t = 0) : Balanced ts := by
  refine ⟨depth_of_flat h, fun us hus => ?_⟩
  have hzero := depth_of_flat fun t ht => h t (hus.subset ht)
  omega

theorem balanced_of_kinds (hts : Balanced ts) (h : us.map Token.kind = ts.map Token.kind) :
    Balanced us := by
  refine ⟨(depth_of_kinds h).trans hts.depth_eq, fun vs hvs => ?_⟩
  obtain ⟨ws, hws, hmap⟩ := List.prefix_map_iff.mp (h ▸ hvs.map Token.kind)
  rw [depth_of_kinds hmap]
  exact hts.nonneg ws hws

theorem Balanced.append (hts : Balanced ts) (hus : Balanced us) : Balanced (ts ++ us) := by
  have ht := hts.depth_eq
  refine ⟨by simp [ht, hus.depth_eq], fun vs hvs => ?_⟩
  rcases prefix_append_cases hvs with hvs | ⟨ws, rfl, hws⟩
  · exact hts.nonneg vs hvs
  · have hle := hus.nonneg ws hws
    rw [depth_append]
    omega

theorem Balanced.parens {u : Token} (hts : Balanced ts) (ht : t.kind = .mark .openParen)
    (hu : u.kind = .mark .closeParen) : Balanced (t :: ts ++ [u]) := by
  have hopen := opens_of_openParen ht
  have hclose := opens_of_closeParen hu
  have hzero := hts.depth_eq
  refine ⟨by simp [hopen, hclose, hzero], fun vs hvs => ?_⟩
  rcases List.prefix_cons_iff.mp hvs with rfl | ⟨ws, rfl, hws⟩
  · simp
  · rw [depth_cons, hopen]
    rcases prefix_append_cases hws with hws | ⟨xs, rfl, hxs⟩
    · have hle := hts.nonneg ws hws
      omega
    · rcases List.prefix_cons_iff.mp hxs with rfl | ⟨ys, rfl, hys⟩
      · rw [List.append_nil]
        omega
      · simp [List.prefix_nil.mp hys, hclose, hzero]

theorem IsLiteral.opens_eq {l : Literal} (h : IsLiteral t l) : opens t = 0 := by
  cases h <;> simp_all [opens]

theorem Elements.flat {ls : List Literal} (h : Elements ts ls) : ∀ t ∈ ts, opens t = 0 := by
  induction h with
  | one hl => simpa using hl.opens_eq
  | @more t u ts l ls hl hu _ ih =>
    intro v hv
    rcases List.mem_cons.mp hv with rfl | hv
    · exact hl.opens_eq
    · rcases List.mem_cons.mp hv with rfl | hv
      · simp [opens, hu]
      · exact ih v hv

theorem Item.flat {e : Expr} (h : Item ts e) : ∀ t ∈ ts, opens t = 0 := by
  cases h with
  | property ht => simp [opens, ht]
  | literal hl => simpa using hl.opens_eq
  | array ht hls hu =>
    intro v hv
    rcases List.mem_append.mp hv with hv | hv
    · rcases List.mem_cons.mp hv with rfl | hv
      · simp [opens, ht]
      · exact hls.flat v hv
    · simp [List.mem_singleton.mp hv, opens, hu]

theorem Test.flat {op : BinaryOp} (h : Test ts op) : ∀ t ∈ ts, opens t = 0 := by
  cases h with
  | comparison c ht => cases c <;> simp [opens, ht, Comparison.mark]
  | _ => simp_all [opens]

theorem opens_connective {c : Connective} (h : t.kind = .keyword c.keyword) : opens t = 0 := by
  simp [opens, h]

/-- What a layer derives closes all parentheses that it opens, and no others. -/
theorem Derives.balanced {layer : Layer} {e : Expr} (h : Derives layer ts e) : Balanced ts := by
  induction h with
  | item h => exact balanced_of_flat h.flat
  | parens ht _ hu ih => exact ih.parens ht hu
  | factor _ ih => exact ih
  | @not t ts e ht _ ih =>
    have hnot : Balanced [t] := balanced_of_flat (by simp [opens, ht])
    exact hnot.append ih
  | negation _ ih => exact ih
  | isNull _ ht hu ih => exact ih.append (balanced_of_flat (by simp [opens, ht, hu]))
  | isNotNull _ ht hu hv ih => exact ih.append (balanced_of_flat (by simp [opens, ht, hu, hv]))
  | operand _ ih => exact ih
  | test _ ho _ ihl ihr => exact (ihl.append (balanced_of_flat ho.flat)).append ihr
  | comparison _ ih => exact ih
  | connective _ ht _ ihl ihr =>
    have hflat := balanced_of_flat (List.forall_mem_singleton.mpr (opens_connective ht))
    exact (ihl.append hflat).append ihr

theorem Derives.depth_eq {layer : Layer} {e : Expr} (h : Derives layer ts e) : depth ts = 0 :=
  h.balanced.depth_eq

end RowFilter.Grammar
