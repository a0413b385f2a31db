import RowFilter.Proofs.Accepted
import RowFilter.Proofs.Lexed

namespace RowFilter

/-- A token with all that the grammar does not look at made uniform. -/
def Token.sense (t : Token) : Token :=
  match t.kind with
  | .keyword k => ⟨t.kind, k.spelling, .start⟩
  | _ => t.bare

theorem Token.sense_kind (t : Token) : t.sense.kind = t.kind := by
  unfold Token.sense
  split <;> rfl

theorem Token.sense_bare (t : Token) : t.bare.sense = t.sense := rfl

theorem Token.text_of_sense {t u : Token} (h : u.sense = t.sense)
    (hkind : ∀ k, t.kind ≠ .keyword k) : u.text = t.text := by
  have hsame : u.kind = t.kind := by rw [← u.sense_kind, h, t.sense_kind]
  have hbare : ∀ v : Token, v.kind = t.kind → v.sense = v.bare := by
    intro v hv
    unfold Token.sense
    split
    next k hk => exact absurd (hv ▸ hk) (hkind k)
    next => rfl
  rw [hbare u hsame, hbare t rfl] at h
  have htext : u.bare.text = t.bare.text := by rw [h]
  exact htext

namespace Grammar

theorem IsLiteral.of_sense {t u : Token} {l : Literal} (h : IsLiteral t l)
    (hu : u.sense = t.sense) : IsLiteral u l := by
  have hkind : u.kind = t.kind := by rw [← u.sense_kind, hu, t.sense_kind]
  cases h with
  | string ht =>
    rw [← Token.text_of_sense hu (by simp [ht])]
    exact .string (hkind.trans ht)
  | number ht hd =>
    rw [← Token.text_of_sense hu (by simp [ht])] at hd
    exact .number (hkind.trans ht) hd
  | yes ht => exact .yes (hkind.trans ht)
  | no ht => exact .no (hkind.trans ht)
  | null ht => exact .null (hkind.trans ht)

theorem kind_of_sense {t u : Token} {kind : TokenKind} (hu : u.sense = t.sense)
    (ht : t.kind = kind) : u.kind = kind := by
  rw [← u.sense_kind, hu, t.sense_kind, ht]

theorem Elements.of_sense {ts us : List Token} {ls : List Literal} (h : Elements ts ls)
    (hus : us.map Token.sense = ts.map Token.sense) : Elements us ls := by
  induction h generalizing us with
  | one hl =>
    obtain ⟨t, rfl, ht⟩ := List.map_eq_singleton_iff.mp hus
    exact .one (hl.of_sense ht)
  | more hl hcomma _ ih =>
    obtain ⟨t, vs, rfl, ht, hvs⟩ := List.map_eq_cons_iff.mp hus
    obtain ⟨u, ws, rfl, hu, hws⟩ := List.map_eq_cons_iff.mp hvs
    exact .more (hl.of_sense ht) (kind_of_sense hu hcomma) (ih hws)

theorem Item.of_sense {ts us : List Token} {e : Expr} (h : Item ts e)
    (hus : us.map Token.sense = ts.map Token.sense) : Item us e := by
  cases h with
  | property hkind =>
    obtain ⟨t, rfl, ht⟩ := List.map_eq_singleton_iff.mp hus
    rw [← Token.text_of_sense ht (by simp [hkind])]
    exact .property (kind_of_sense ht hkind)
  | literal hl =>
    obtain ⟨t, rfl, ht⟩ := List.map_eq_singleton_iff.mp hus
    exact .literal (hl.of_sense ht)
  | array hopen hls hclose =>
    rw [List.map_append] at hus
    obtain ⟨vs, ws, rfl, hvs, hws⟩ := List.map_eq_append_iff.mp hus
    obtain ⟨t, xs, rfl, ht, hxs⟩ := List.map_eq_cons_iff.mp hvs
    obtain ⟨u, rfl, hu⟩ := List.map_eq_singleton_iff.mp hws
    exact .array (kind_of_sense ht hopen) (hls.of_sense hxs) (kind_of_sense hu hclose)

theorem Test.of_sense {ts us : List Token} {op : BinaryOp} (h : Test ts op)
    (hus : us.map Token.sense = ts.map Token.sense) : Test us op := by
  cases h with
  | comparison c ht =>
    obtain ⟨t, rfl, hs⟩ := List.map_eq_singleton_iff.mp hus
    exact .comparison c (kind_of_sense hs ht)
  | like ht =>
    obtain ⟨t, rfl, hs⟩ := List.map_eq_singleton_iff.mp hus
    exact .like (kind_of_sense hs ht)
  | among ht =>
    obtain ⟨t, rfl, hs⟩ := List.map_eq_singleton_iff.mp hus
    exact .among (kind_of_sense hs ht)
  | notLike ht hu =>
    obtain ⟨t, vs, rfl, hs, hvs⟩ := List.map_eq_cons_iff.mp hus
    obtain ⟨u, rfl, hr⟩ := List.map_eq_singleton_iff.mp hvs
    exact .notLike (kind_of_sense hs ht) (kind_of_sense hr hu)
  | notAmong ht hu =>
    obtain ⟨t, vs, rfl, hs, hvs⟩ := List.map_eq_cons_iff.mp hus
    obtain ⟨u, rfl, hr⟩ := List.map_eq_singleton_iff.mp hvs
    exact .notAmong (kind_of_sense hs ht) (kind_of_sense hr hu)

/-- Tokens of the same sense derive the same trees. -/
theorem Derives.of_sense {layer : Layer} {ts us : List Token} {e : Expr} (h : Derives layer ts e)
    (hus : us.map Token.sense = ts.map Token.sense) : Derives layer us e := by
  induction h generalizing us with
  | item h => exact .item (h.of_sense hus)
  | parens hopen _ hclose ih =>
    rw [List.map_append] at hus
    obtain ⟨vs, ws, rfl, hvs, hws⟩ := List.map_eq_append_iff.mp hus
    obtain ⟨t, xs, rfl, ht, hxs⟩ := List.map_eq_cons_iff.mp hvs
    obtain ⟨u, rfl, hu⟩ := List.map_eq_singleton_iff.mp hws
    exact .parens (kind_of_sense ht hopen) (ih hxs) (kind_of_sense hu hclose)
  | factor _ ih => exact .factor (ih hus)
  | not hnot _ ih =>
    obtain ⟨t, vs, rfl, ht, hvs⟩ := List.map_eq_cons_iff.mp hus
    exact .not (kind_of_sense ht hnot) (ih hvs)
  | negation _ ih => exact .negation (ih hus)
  | isNull _ his hnull ih =>
    rw [List.map_append] at hus
    obtain ⟨vs, ws, rfl, hvs, hws⟩ := List.map_eq_append_iff.mp hus
    obtain ⟨t, xs, rfl, ht, hxs⟩ := List.map_eq_cons_iff.mp hws
    obtain ⟨u, rfl, hu⟩ := List.map_eq_singleton_iff.mp hxs
    exact .isNull (ih hvs) (kind_of_sense ht his) (kind_of_sense hu hnull)
  | isNotNull _ his hnot hnull ih =>
    rw [List.map_append] at hus
    obtain ⟨vs, ws, rfl, hvs, hws⟩ := List.map_eq_append_iff.mp hus
    obtain ⟨t, xs, rfl, ht, hxs⟩ := List.map_eq_cons_iff.mp hws
    obtain ⟨u, ys, rfl, hu, hys⟩ := List.map_eq_cons_iff.mp hxs
    obtain ⟨v, rfl, hv⟩ := List.map_eq_singleton_iff.mp hys
    exact .isNotNull (ih hvs) (kind_of_sense ht his) (kind_of_sense hu hnot)
      (kind_of_sense hv hnull)
  | operand _ ih => exact .operand (ih hus)
  | test _ ho _ ihl ihr =>
    simp only [List.map_append] at hus
    obtain ⟨vs, ws, rfl, hvs, hws⟩ := List.map_eq_append_iff.mp hus
    obtain ⟨xs, ys, rfl, hxs, hys⟩ := List.map_eq_append_iff.mp hvs
    exact .test (ihl hxs) (ho.of_sense hys) (ihr hws)
  | comparison _ ih => exact .comparison (ih hus)
  | connective _ hc _ ihl ihr =>
    simp only [List.map_append] at hus
    obtain ⟨vs, ws, rfl, hvs, hws⟩ := List.map_eq_append_iff.mp hus
    obtain ⟨xs, ys, rfl, hxs, hys⟩ := List.map_eq_append_iff.mp hvs
    obtain ⟨t, rfl, ht⟩ := List.map_eq_singleton_iff.mp hys
    exact .connective (ihl hxs) (kind_of_sense ht hc) (ihr hws)

theorem depth_map_sense (ts : List Token) : depth (ts.map Token.sense) = depth ts :=
  depth_of_kinds (by simp [Token.sense_kind, Function.comp_def])

theorem nested_map_sense {room : Nat} {ts : List Token} :
    Nested room (ts.map Token.sense) ↔ Nested room ts := by
  constructor
  · intro h us hus
    have hle := h (us.map Token.sense) (hus.map Token.sense)
    rwa [depth_map_sense] at hle
  · intro h us hus
    obtain ⟨vs, hvs, rfl⟩ := List.prefix_map_iff.mp hus
    rw [depth_map_sense]
    exact h vs hvs

theorem Within.of_sense {limit room : Nat} {layer : Layer} {ts us : List Token} {e : Expr}
    (h : Within limit room layer ts e) (hus : us.map Token.sense = ts.map Token.sense) :
    Within limit room layer us e := by
  refine ⟨h.derives.of_sense hus, h.height_le, ?_⟩
  rw [← nested_map_sense, hus, nested_map_sense]
  exact h.nested

end Grammar

/-- A text is read as its tokens are, wherever they stand. -/
theorem parseWhere_of_lexes {text : List Char} {words : List Token} {e : Expr}
    (h : Lexes text words) :
    parseWhere text = .ok e ↔ Grammar.Within maxDepth maxDepth .expression words e := by
  obtain ⟨ts, hts, rfl⟩ := h.tokenize
  have hsense : ts.map Token.sense = (ts.map Token.bare).map Token.sense := by
    simp [Function.comp_def, Token.sense_bare]
  rw [parseWhere_eq_ok]
  constructor
  · rintro ⟨us, hus, hw⟩
    rw [hts] at hus
    obtain rfl := Except.ok.inj hus
    exact hw.of_sense hsense.symm
  · intro hw
    exact ⟨ts, hts, hw.of_sense hsense⟩

/-- What words derive is read from a text of these words, if they are few. -/
theorem parseWhere_of_derives {text : List Char} {words : List Token} {e : Expr}
    (hwords : (tokenize text).map (List.map Token.bare) = .ok words)
    (h : Grammar.Derives .expression words e) (hle : e.height ≤ maxDepth)
    (hfew : words.length ≤ maxDepth) : parseWhere text = .ok e :=
  (parseWhere_of_lexes (lexes_of_words hwords)).mpr
    ⟨h, hle, (Grammar.nested_length words).mono hfew⟩

end RowFilter
