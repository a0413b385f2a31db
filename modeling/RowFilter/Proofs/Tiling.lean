import RowFilter.Proofs.LexerRuns

namespace RowFilter

/-- A letter or an underscore, and letters, numbers and underscores behind it. -/
def IsWord : List Char → Prop
  | [] => False
  | c :: cs => startsName c = true ∧ ∀ d ∈ cs, continuesName d = true

/-- How tokens of a kind are written. No case of a keyword is a name. -/
def TokenKind.Spells : TokenKind → List Char → Prop
  | .identifier, word => IsWord word ∧ ∀ k : Keyword, word.map Char.toLower ≠ k.spelling
  | .keyword k, word => IsWord word ∧ word.map Char.toLower = k.spelling
  | .number, word => Numeral word
  | .string, word => ∃ content, word = Quoted.enclose '\'' content
  | .mark m, word => word = m.spelling

theorem Keyword.ofWord?_eq_some {word : List Char} {k : Keyword} :
    Keyword.ofWord? word = some k ↔ word.map Char.toLower = k.spelling := by
  have hlower : ∀ k : Keyword, k.spelling.map Char.toLower = k.spelling := by
    intro k
    cases k <;> rfl
  constructor
  · intro h
    have hsame := List.find?_some h
    simp only [sameIgnoringAsciiCase, decide_eq_true_eq, hlower] at hsame
    exact hsame.symm
  · intro h
    unfold ofWord? sameIgnoringAsciiCase
    rw [h]
    cases k <;> rfl

theorem Lexeme.spells {kind : TokenKind} {word : List Char} (h : Lexeme kind word) :
    kind.Spells word := by
  cases h with
  | string content => exact ⟨content, rfl⟩
  | number h => exact h
  | mark m => exact rfl
  | @word c cs hc hcs =>
    unfold wordKind
    cases hk : Keyword.ofWord? (c :: cs) with
    | some k => exact ⟨⟨hc, hcs⟩, Keyword.ofWord?_eq_some.mp hk⟩
    | none =>
      refine ⟨⟨hc, hcs⟩, fun k hsame => ?_⟩
      rw [Keyword.ofWord?_eq_some.mpr hsame] at hk
      cases hk

theorem IsWord.lexeme {word : List Char} (h : IsWord word) : Lexeme (wordKind word) word := by
  cases word with
  | nil => exact h.elim
  | cons c cs => exact .word h.1 h.2

theorem TokenKind.Spells.lexeme {kind : TokenKind} {word : List Char} (h : kind.Spells word) :
    Lexeme kind word := by
  cases kind with
  | identifier =>
    have hnone : Keyword.ofWord? word = none := by
      cases hk : Keyword.ofWord? word with
      | none => rfl
      | some k => exact absurd (Keyword.ofWord?_eq_some.mp hk) (h.2 k)
    have hlexeme := h.1.lexeme
    rwa [wordKind, hnone] at hlexeme
  | keyword k =>
    have hlexeme := h.1.lexeme
    rwa [wordKind, Keyword.ofWord?_eq_some.mpr h.2] at hlexeme
  | number => exact .number h
  | string =>
    obtain ⟨content, rfl⟩ := h
    exact .string content
  | mark m =>
    have hspelling : word = m.spelling := h
    exact hspelling ▸ .mark m

/-- A token that another character would end is the longest one where it starts. -/
theorem Lexeme.longest {kind other : TokenKind} {word longer rest : List Char}
    (h : Lexeme kind word) (hends : ∀ y ∈ rest.head?, Ends kind y) (hother : Lexeme other longer)
    (hfront : longer <+: word ++ rest) : longer.length ≤ word.length := by
  obtain ⟨tail, htail⟩ := hfront
  rcases List.append_eq_append_iff.mp htail with ⟨more, hword, _⟩ | ⟨more, hlonger, hrest⟩
  · simp [hword]
  · obtain ⟨c, cs, hc, _⟩ := hother.head
    -- The step that reads `longer` whole reads no more than `word`.
    have hshort : readToken c cs .start = .ok (⟨kind, word, .start⟩, more) := by
      refine readToken_eq_ok.mpr ⟨by rw [← hc, hlonger], h, fun y hy => hends y ?_, rfl⟩
      cases more with
      | nil => cases hy
      | cons d more => simpa [hrest] using hy
    have hlong : readToken c cs .start = .ok (⟨other, longer, .start⟩, []) :=
      readToken_eq_ok.mpr ⟨by simp [hc], hother, by simp, rfl⟩
    rw [hshort] at hlong
    have hpair := (Prod.mk.inj (Except.ok.inj hlong)).1
    have hword : word = longer := congrArg Token.text hpair
    simp [hword]

/-- The byte offset behind a token. -/
def Token.stop (t : Token) : Nat :=
  t.position.offset + utf8Length t.text

/-- No token at this place takes more of the text than this one does. -/
structure Token.Longest (t : Token) (rest : List Char) : Prop where
  ends : ∀ y ∈ rest.head?, Ends t.kind y
  longest : ∀ (kind : TokenKind) (word : List Char), kind.Spells word → word <+: t.text ++ rest →
    word.length ≤ t.text.length

theorem Lexeme.longest_token {t : Token} {rest : List Char} (h : Lexeme t.kind t.text)
    (hends : ∀ y ∈ rest.head?, Ends t.kind y) : t.Longest rest :=
  ⟨hends, fun _ _ hword hfront => h.longest hends hword.lexeme hfront⟩

/-- Tokens tile the text `read`, which starts at the byte `origin` and goes on with `rest`. -/
structure Tiling (origin : Nat) (read rest : List Char) (ts : List Token) : Prop where
  nonempty : ∀ t ∈ ts, t.text ≠ []
  spelled : ∀ t ∈ ts, t.kind.Spells t.text
  ordered : ts.Pairwise fun t u =>
    t.position.offset < u.position.offset ∧ t.stop ≤ u.position.offset
  sliced : ∀ t ∈ ts, ∃ before after, read = before ++ (t.text ++ after) ∧
    t.position.offset = origin + utf8Length before ∧ t.Longest (after ++ rest)
  covered : ∀ before c after, read = before ++ c :: after → isLayout c = true ∨
    ∃ t ∈ ts, t.position.offset ≤ origin + utf8Length before ∧
      origin + utf8Length before + c.utf8Size ≤ t.stop

namespace Tiling

theorem gap {origin : Nat} {gap rest : List Char} (h : ∀ c ∈ gap, isLayout c = true) :
    Tiling origin gap rest [] where
  nonempty := by simp
  spelled := by simp
  ordered := .nil
  sliced := by simp
  covered := by
    intro before c after hsplit
    exact .inl (h c (by simp [hsplit]))

/-- A character of two texts in a row is one of the first or of the second. -/
theorem split_cases {xs ys before after : List Char} {c : Char}
    (h : xs ++ ys = before ++ c :: after) :
    (∃ more, xs = before ++ c :: more) ∨ ∃ more, before = xs ++ more ∧ ys = more ++ c :: after := by
  rcases List.append_eq_append_iff.mp h with ⟨more, hbefore, hys⟩ | ⟨more, hxs, htail⟩
  · exact .inr ⟨more, hbefore, hys⟩
  · cases more with
    | nil => exact .inr ⟨[], by simpa using hxs.symm, by simpa using htail.symm⟩
    | cons d more =>
      obtain ⟨rfl, _⟩ := List.cons.inj htail
      exact .inl ⟨more, hxs⟩

theorem stop_pos {t : Token} (h : Lexeme t.kind t.text) : t.position.offset < t.stop := by
  obtain ⟨c, cs, hc, _⟩ := h.head
  have hsize := c.utf8Size_pos
  rw [Token.stop, hc, utf8Length]
  omega

theorem origin_le {origin : Nat} {read rest : List Char} {ts : List Token}
    (h : Tiling origin read rest ts) : ∀ t ∈ ts, origin ≤ t.position.offset := by
  intro t ht
  obtain ⟨_, _, _, hoffset, _⟩ := h.sliced t ht
  omega

/-- A gap and a token before a tiling make a longer tiling. -/
theorem cons {origin : Nat} {gap read rest : List Char} {t : Token} {ts : List Token}
    (hgap : ∀ c ∈ gap, isLayout c = true) (hstart : t.position.offset = origin + utf8Length gap)
    (ht : Lexeme t.kind t.text) (hends : ∀ y ∈ (read ++ rest).head?, Ends t.kind y)
    (h : Tiling t.stop read rest ts) : Tiling origin (gap ++ (t.text ++ read)) rest (t :: ts) where
  nonempty := by
    obtain ⟨c, cs, hc, _⟩ := ht.head
    exact List.forall_mem_cons.mpr ⟨by simp [hc], h.nonempty⟩
  spelled := List.forall_mem_cons.mpr ⟨ht.spells, h.spelled⟩
  ordered := by
    refine List.pairwise_cons.mpr ⟨fun u hu => ?_, h.ordered⟩
    have hpos := stop_pos ht
    have hle := h.origin_le u hu
    omega
  sliced := by
    refine List.forall_mem_cons.mpr ⟨⟨gap, read, rfl, hstart, ht.longest_token hends⟩, ?_⟩
    intro u hu
    obtain ⟨before, after, hread, hoffset, hlongest⟩ := h.sliced u hu
    refine ⟨gap ++ (t.text ++ before), after, by simp [hread], ?_, hlongest⟩
    rw [hoffset, Token.stop, hstart, utf8Length_append, utf8Length_append]
    omega
  covered := by
    intro before c after hsplit
    rcases split_cases hsplit with ⟨more, hmore⟩ | ⟨inner, rfl, hinner⟩
    · exact .inl (hgap c (by simp [hmore]))
    · rcases split_cases hinner with ⟨more, hmore⟩ | ⟨outer, rfl, houter⟩
      · refine .inr ⟨t, by simp, ?_, ?_⟩
        · rw [hstart, utf8Length_append]
          omega
        · rw [Token.stop, hstart, hmore, utf8Length_append, utf8Length_append, utf8Length]
          omega
      · have hbytes : origin + utf8Length (gap ++ (t.text ++ outer)) = t.stop + utf8Length outer := by
          rw [Token.stop, hstart, utf8Length_append, utf8Length_append]
          omega
        rw [hbytes]
        refine (h.covered outer c after houter).imp id ?_
        rintro ⟨u, hu, hcovers⟩
        exact ⟨u, by simp [hu], hcovers⟩

end Tiling

/-- The tokens of a run tile what the lexer has moved over, together with layout behind it. -/
theorem Lexer.Gives.tiling {l m : Lexer} {ts : List Token} (h : l.Gives ts m)
    (hl : l.failed = false) : ∃ read, l.rest = read ++ m.rest ∧
      m.position = l.position.after read ∧
      ∀ gap rest, (∀ c ∈ gap, isLayout c = true) → m.rest = gap ++ rest →
        Tiling l.position.offset (read ++ gap) rest ts := by
  induction h with
  | done l => exact ⟨[], rfl, rfl, fun gap rest hgap _ => .gap hgap⟩
  | @token l m n t ts hnext hgives ih =>
    obtain ⟨space, hpasses⟩ := passes_of_next hnext
    obtain ⟨read, hread, hposition, htiling⟩ := ih hpasses.working
    refine ⟨space ++ (t.text ++ read), ?_, ?_, fun gap rest hgap hrest => ?_⟩
    · rw [hpasses.rest_eq, hread]
      simp
    · rw [hposition, hpasses.position_eq, hpasses.starts, Position.after_append,
        Position.after_append]
    · have hends := hpasses.ends
      have htail := htiling gap rest hgap hrest
      have hoffset : m.position.offset = t.stop := by
        rw [hpasses.position_eq, Position.offset_after, Token.stop]
      rw [hoffset] at htail
      rw [hread, hrest, ← List.append_assoc] at hends
      have hstart : t.position.offset = l.position.offset + utf8Length space := by
        rw [hpasses.starts, Position.offset_after]
      have hlonger := htail.cons hpasses.gap_layout hstart hpasses.lexeme hends
      simpa using hlonger

/-- The tokens of a text tile it. A text without tokens is tiled up to where the lexer fails by
the tokens that it gives before. -/
theorem tokenize_tiles (text : List Char) :
    (∀ ts, tokenize text = .ok ts → Tiling 0 text [] ts) ∧
    (∀ e, tokenize text = .error e → ∃ ts l read c cs, (Lexer.ofText text).Gives ts l ∧
      l.next.1 = some (.error e) ∧ text = read ++ c :: cs ∧ Tiling 0 read (c :: cs) ts ∧
      isLayout c = false ∧ readToken c cs (Position.start.after read) = .error e) := by
  refine ⟨fun ts hts => ?_, fun e he => ?_⟩
  · obtain ⟨l, hgives, hlayout⟩ := gives_of_tokenize hts
    obtain ⟨read, hread, _, htiling⟩ := hgives.tiling rfl
    have hall := htiling l.rest [] hlayout (by simp)
    rwa [← hread] at hall
  · obtain ⟨ts, l, gap, c, cs, hgives, hnext, hfails⟩ := fails_of_tokenize he
    obtain ⟨read, hread, hposition, htiling⟩ := hgives.tiling rfl
    have htext : text = read ++ gap ++ c :: cs := by
      rw [List.append_assoc, ← hfails.rest_eq]
      exact hread
    have hstart : l.position.after gap = Position.start.after (read ++ gap) := by
      rw [hposition, Position.after_append]
      rfl
    refine ⟨ts, l, read ++ gap, c, cs, hgives, hnext, htext, ?_, hfails.not_layout, ?_⟩
    · exact htiling gap (c :: cs) hfails.gap_layout hfails.rest_eq
    · rw [← hstart]
      exact hfails.read

theorem tokenize_tiles_line :
    let text := "Größe>=1\n?".toList
    let e : LexError := .unexpectedCharacter '?' ⟨11, 2, 1⟩
    tokenize text = .error e ∧ ∃ ts l read c cs, (Lexer.ofText text).Gives ts l ∧
      l.next.1 = some (.error e) ∧ text = read ++ c :: cs ∧ Tiling 0 read (c :: cs) ts := by
  intro text e
  have he : tokenize text = .error e := by rfl
  obtain ⟨ts, l, read, c, cs, hgives, hnext, htext, htiling, _⟩ := (tokenize_tiles text).2 e he
  exact ⟨he, ts, l, read, c, cs, hgives, hnext, htext, htiling⟩

end RowFilter
