import RowFilter.Proofs.Lookahead
import RowFilter.Proofs.Tiling

namespace RowFilter

open Grammar Reader

/-- The text of the first of some tokens of a source; nothing where there are none. -/
def foundAt (rest : List Token) : Option (List Char) :=
  rest.head?.map Token.text

/-- The place of the first of some tokens of a source, or of its end. -/
def placeOf (source : List Char) (rest : List Token) : Position :=
  (rest.head?.map Token.position).getD (.endOf source)

/-- `rest` begins with the first token that is out of place: what is read before it can be
completed, but not by a token of its kind, unless that is `not`. If it is empty, the expression is
not finished. -/
structure FirstOutOfPlace (read rest : List Token) : Prop where
  begins : Begins .expression read
  not_derives : ∀ e, ¬Derives .expression (read ++ rest) e
  not_begins : ∀ t ∈ rest.head?, t.kind ≠ .keyword .not →
    ∀ u : Token, u.kind = t.kind → ¬Begins .expression (read ++ [u])

/-- Whether the reading of all tokens as one expression ends before these. -/
inductive Halts (tokens rest : List Token) : Prop
  | missing (x : Expected) (opened : Nat) :
      expression maxDepth maxDepth tokens = .error ⟨.expected x, rest, opened⟩ → Halts tokens rest
  | leftOver (e : Expr) : expression maxDepth maxDepth tokens = .ok (e, rest) → rest ≠ [] →
      Halts tokens rest

theorem Stop.toError_eq_unexpected {source : List Char} {tokens : List Token} {s : Stop}
    {x : Expected} {found : Option (List Char)} {p : Position}
    (h : s.toError source tokens = .unexpected x found p) :
    s.reason = .expected x ∧ found = foundAt s.rest ∧ p = placeOf source s.rest := by
  unfold toError at h
  split at h
  next e hreason =>
    split at h
    next t rest hrest =>
      cases h
      exact ⟨hreason, by rw [hrest]; rfl, by rw [hrest]; rfl⟩
    next hrest =>
      cases h
      exact ⟨hreason, by rw [hrest]; rfl, by rw [hrest]; rfl⟩
  next => cases h
  next => cases h

variable {text : List Char} {x : Expected} {found : Option (List Char)} {p : Position}
  {tokens read rest us vs : List Token}

theorem halts_of_parseWhere (h : parseWhere text = .error (.unexpected x found p)) :
    ∃ tokens rest, tokenize text = .ok tokens ∧ Halts tokens rest ∧ found = foundAt rest ∧
      p = placeOf text rest := by
  unfold parseWhere at h
  split at h
  next => cases h
  next tokens htokens =>
    simp only [Session.complete, Session.expression, Session.ofTokens] at h
    cases hread : expression maxDepth maxDepth tokens with
    | error s =>
      obtain ⟨reason, rest, opened⟩ := s
      simp only [hread] at h
      obtain ⟨rfl, hfound, hp⟩ := Stop.toError_eq_unexpected (Except.error.inj h)
      exact ⟨tokens, rest, htokens, .missing x opened hread, hfound, hp⟩
    | ok result =>
      obtain ⟨e, rest⟩ := result
      simp only [hread] at h
      split at h
      next => cases h
      next hrest =>
        obtain ⟨_, hfound, hp⟩ := Stop.toError_eq_unexpected (Except.error.inj h)
        exact ⟨tokens, rest, htokens, .leftOver e hread (by simpa using hrest), hfound, hp⟩

/-- What has been read can be completed. -/
theorem Halts.begins (h : Halts tokens rest) :
    ∃ read, tokens = read ++ rest ∧ Begins .expression read := by
  cases h with
  | missing x opened hread => exact expression_readsOnly (by decide) _ _ _ _ _ hread
  | leftOver e hread _ =>
    obtain ⟨ts, hts, hwithin⟩ := expression_sound (by decide) _ _ _ hread
    exact ⟨ts, hts, hwithin.derives.begins⟩

/-- Behind what has been read no tokens that start alike make it an expression. -/
theorem Halts.not_derives (h : Halts (read ++ us) us) (hstart : SameStart us vs) (e : Expr) :
    ¬Derives .expression (read ++ vs) e := by
  intro he
  -- With bounds that are wide enough the whole would be read, and the narrow reader goes along.
  have hwithin : Within (max maxDepth e.height) (max maxDepth (read ++ vs).length) .expression
      (read ++ vs) e :=
    ⟨he, Nat.le_max_right _ _, (nested_length _).mono (Nat.le_max_right _ _)⟩
  have hwide := expression_complete hwithin
  have hkeeps := expression_widens (Nat.le_max_left maxDepth e.height)
    (Nat.le_max_left maxDepth (read ++ vs).length) us vs read hstart
  rw [hwide] at hkeeps
  cases h with
  | missing x opened hs =>
    rw [hs] at hkeeps
    cases hkeeps with
    | done value front behind hread ha hb => cases ha
    | missing y n front behind hread ha hb => cases hb
    | refused s ha hreason =>
      cases ha
      exact hreason x rfl
    | beyond hlt => exact Nat.lt_irrefl _ hlt
  | leftOver f hs hus =>
    rw [hs] at hkeeps
    cases hkeeps with
    | done value front behind hread ha hb =>
      have hvs : vs = [] := (List.append_eq_nil_iff.mp (Prod.mk.inj (Except.ok.inj hb)).2.symm).2
      rcases hstart.cases with ⟨hnone, _⟩ | ⟨_, _, _, _, _, hcons, _⟩
      · exact hus hnone
      · rw [hvs] at hcons
        cases hcons
    | missing y n front behind hread ha hb => cases ha
    | refused s ha hreason => cases ha
    | beyond hlt => exact Nat.lt_irrefl _ hlt

theorem Halts.firstOutOfPlace (h : Halts (read ++ rest) rest) (hbegins : Begins .expression read) :
    FirstOutOfPlace read rest where
  begins := hbegins
  not_derives := h.not_derives (.refl rest)
  not_begins := by
    rintro t ht hnot u hkind ⟨more, e, he⟩
    obtain ⟨behind, rfl⟩ := List.head?_eq_some_iff.mp ht
    rw [List.append_assoc] at he
    exact h.not_derives (.token behind more hkind hnot) e he

theorem tiling_of_tokenize (h : tokenize text = .ok tokens) : Tiling 0 text [] tokens := by
  obtain ⟨l, hgives, hlayout⟩ := gives_of_tokenize h
  obtain ⟨front, hfront, _, htiling⟩ := hgives.tiling rfl
  have hall := htiling l.rest [] hlayout (by simp)
  rwa [← hfront] at hall

theorem Tiling.placeOf_lt (h : Tiling 0 text [] tokens) (hus : us <:+ tokens) (hvs : vs <:+ us)
    (hne : vs ≠ us) : (placeOf text us).offset < (placeOf text vs).offset := by
  obtain ⟨front, rfl⟩ := hus
  obtain ⟨between, rfl⟩ := hvs
  cases between with
  | nil => exact absurd rfl hne
  | cons t between =>
    cases vs with
    | nil =>
      obtain ⟨before, after, htext, hoffset, _⟩ := h.sliced t (by simp)
      have hlength := congrArg utf8Length htext
      have hpos := Tiling.stop_pos (h.spelled t (by simp)).lexeme
      have hend : (Position.endOf text).offset = utf8Length text := by
        simp [Position.endOf, Position.locate]
      rw [utf8Length_append, utf8Length_append] at hlength
      rw [Token.stop] at hpos
      change t.position.offset < (Position.endOf text).offset
      omega
    | cons u vs =>
      have hordered := h.ordered
      rw [← List.append_assoc] at hordered
      exact ((List.pairwise_append.mp hordered).2.2 t (by simp) u (by simp)).1

theorem Tiling.placeOf_inj (h : Tiling 0 text [] tokens) (hus : us <:+ tokens) (hvs : vs <:+ tokens)
    (heq : placeOf text us = placeOf text vs) : us = vs := by
  have hoffset := congrArg Position.offset heq
  by_cases hsame : us = vs
  · exact hsame
  rcases List.suffix_or_suffix_of_suffix hus hvs with hsuffix | hsuffix
  · exact absurd (h.placeOf_lt hvs hsuffix hsame) (by omega)
  · exact absurd (h.placeOf_lt hus hsuffix (Ne.symm hsame)) (by omega)

/-- A syntax error names the first token that is out of place, by its text and by a position that no
other token has, or else the end of the source. -/
theorem parseWhere_unexpected (h : parseWhere text = .error (.unexpected x found p)) :
    ∃ read rest, tokenize text = .ok (read ++ rest) ∧ found = foundAt rest ∧
      (∀ us, us <:+ read ++ rest → (placeOf text us = p ↔ us = rest)) ∧
      FirstOutOfPlace read rest := by
  obtain ⟨tokens, rest, htokens, hhalts, hfound, rfl⟩ := halts_of_parseWhere h
  obtain ⟨read, rfl, hbegins⟩ := hhalts.begins
  refine ⟨read, rest, htokens, hfound, fun us hus => ⟨fun hplace => ?_, ?_⟩,
    hhalts.firstOutOfPlace hbegins⟩
  · exact (tiling_of_tokenize htokens).placeOf_inj hus (List.suffix_append read rest) hplace
  · rintro rfl
    rfl

theorem parseWhere_unexpected_nullTest :
    let text := "not (A is B)".toList
    let found := ['B']
    let p : Position := ⟨10, 1, 11⟩
    parseWhere text = .error (.unexpected .nullTest (some found) p) ∧
      ∃ read rest, tokenize text = .ok (read ++ rest) ∧ some found = foundAt rest ∧
        (∀ us, us <:+ read ++ rest → (placeOf text us = p ↔ us = rest)) ∧
        FirstOutOfPlace read rest := by
  intro text found p
  have h : parseWhere text = .error (.unexpected .nullTest (some found) p) := by rfl
  exact ⟨h, parseWhere_unexpected h⟩

-- The `not` is reported, though `like` might follow it.
example : parseWhere "A not".toList =
    .error (.unexpected .endOfInput (some "not".toList) ⟨2, 1, 3⟩) := by rfl

end RowFilter
