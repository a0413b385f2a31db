import RowFilter.Proofs.LexerRuns
import RowFilter.Proofs.Written
import RowFilter.Text.Escape

namespace RowFilter

/-- The literal that is written for a text. -/
def quoted (text : List Char) : List Char :=
  '\'' :: escapeString text ++ ['\'']

theorem quoted_eq_enclose (text : List Char) : quoted text = Quoted.enclose '\'' text := rfl

theorem content_quoted (text : List Char) : Quoted.content '\'' (quoted text) = text := by
  rw [quoted_eq_enclose, Quoted.content_enclose]

theorem lexeme_quoted (text : List Char) : Lexeme .string (quoted text) :=
  .string text

/-- A string token is the literal of its content. -/
theorem Lexeme.eq_quoted {word : List Char} (h : Lexeme .string word) :
    word = quoted (Quoted.content '\'' word) := by
  generalize hkind : TokenKind.string = kind at h
  cases h with
  | string content => rw [Quoted.content_enclose, quoted_eq_enclose]
  | word _ _ =>
    unfold wordKind at hkind
    split at hkind <;> cases hkind
  | _ => cases hkind

/-- The reader takes the token of a literal for the text. -/
theorem literal?_quoted {t : Token} {text : List Char} (hkind : t.kind = .string)
    (htext : t.text = quoted text) :
    Reader.literal? t = some (some (.string (.ofList text))) := by
  simp only [Reader.literal?, hkind, htext, content_quoted]

/-- What may stand right before a literal: layout, or a mark that an operand may follow. -/
def PrecedesLiteral (x : Char) : Prop :=
  isLayout x = true ∨ x ∈ ['=', '<', '>', '(', '[', ',']

/-- What may stand right behind a literal: layout, or a mark that may follow an operand. -/
def FollowsLiteral (y : Char) : Prop :=
  isLayout y = true ∨ y ∈ [')', ']', ',', '=', '<', '>']

theorem isDelimiter_of_mark {c : Char} (m : Mark) (h : Mark.ofChar? c = some m) :
    isDelimiter c = true := by
  simp [isDelimiter, h]

theorem PrecedesLiteral.isDelimiter {x : Char} (h : PrecedesLiteral x) : isDelimiter x = true := by
  rcases h with h | h
  · simp [RowFilter.isDelimiter, h]
  · simp only [List.mem_cons, List.not_mem_nil, or_false] at h
    rcases h with rfl | rfl | rfl | rfl | rfl | rfl <;> exact isDelimiter_of_mark _ rfl

theorem FollowsLiteral.isDelimiter {y : Char} (h : FollowsLiteral y) : isDelimiter y = true := by
  rcases h with h | h
  · simp [RowFilter.isDelimiter, h]
  · simp only [List.mem_cons, List.not_mem_nil, or_false] at h
    rcases h with rfl | rfl | rfl | rfl | rfl | rfl <;> exact isDelimiter_of_mark _ rfl

/-- No mark has a quote in it, so a delimiter keeps its neighbour apart from a quote. -/
theorem seam_before_quote {x : Char} (h : isDelimiter x = true) : Seam x '\'' := by
  refine ⟨.inl h, fun m hm => ?_⟩
  rcases (pair_of_spelling hm).2 with h | h <;> exact absurd h (by decide)

theorem seam_behind_quote {y : Char} (h : isDelimiter y = true) : Seam '\'' y := by
  refine ⟨.inr h, fun m hm => ?_⟩
  rcases (pair_of_spelling hm).1 with h | h <;> exact absurd h (by decide)

theorem Lexed.quoted (p : Position) (text : List Char) :
    Lexed p (RowFilter.quoted text) [⟨.string, RowFilter.quoted text, p⟩] := by
  have hlexed := @Lexed.token p [] [] ⟨.string, RowFilter.quoted text, p⟩ [] (by simp) rfl
    (lexeme_quoted text) (by simp) (.done (by simp))
  rwa [List.append_nil, List.nil_append] at hlexed

theorem getLast?_quoted (text : List Char) : (quoted text).getLast? = some '\'' :=
  List.getLast?_concat

/-- Between two texts that have tokens, a literal is one token more. -/
theorem tokenize_between {a b : List Char} {ts us : List Token} (ha : tokenize a = .ok ts)
    (hb : tokenize b = .ok us) (hbefore : ∀ x ∈ a.getLast?, PrecedesLiteral x)
    (hbehind : ∀ y ∈ b.head?, FollowsLiteral y) (text : List Char) :
    ∃ vs, tokenize (a ++ quoted text ++ b)
        = .ok (ts ++ ⟨.string, quoted text, Position.start.after a⟩ :: vs) ∧
      vs.map Token.bare = us.map Token.bare := by
  have hleft := (tokenize_eq_ok.mp ha).append (Lexed.quoted _ text) (by
    intro x hx y hy
    obtain rfl := Option.some.inj hy
    exact seam_before_quote (hbefore x hx).isDelimiter)
  obtain ⟨vs, hvs, hbare⟩ := lexes_of_tokenize hb (Position.start.after (a ++ quoted text))
  have hall := hleft.append hvs (by
    intro x hx y hy
    have hne : quoted text ≠ [] := List.cons_ne_nil _ _
    rw [getLast?_append_of_ne_nil hne, getLast?_quoted] at hx
    obtain rfl := Option.some.inj hx
    exact seam_behind_quote (hbehind y hy).isDelimiter)
  refine ⟨vs, tokenize_eq_ok.mpr ?_, hbare⟩
  simpa using hall

/-- Literals are lossless and cannot be left: between two texts the literal of any text is one
string token, which stands for that text and leaves the tokens of its surroundings as they are; and
each string token of any input is the literal of the text that it stands for. -/
theorem tokenize_quoted :
    (∀ (text a b : List Char) (ts us : List Token), tokenize a = .ok ts → tokenize b = .ok us →
      (∀ x ∈ a.getLast?, PrecedesLiteral x) → (∀ y ∈ b.head?, FollowsLiteral y) →
      ∃ t vs, tokenize (a ++ quoted text ++ b) = .ok (ts ++ t :: vs) ∧ t.kind = .string ∧
        t.text = quoted text ∧ Quoted.content '\'' t.text = text ∧
        Reader.literal? t = some (some (.string (.ofList text))) ∧
        vs.map Token.bare = us.map Token.bare) ∧
    (∀ (input : List Char) (given : List Token) (l : Lexer),
      (Lexer.ofText input).Gives given l → ∀ t ∈ given, t.kind = .string →
        t.text = quoted (Quoted.content '\'' t.text)) := by
  refine ⟨fun text a b ts us ha hb hbefore hbehind => ?_, fun input given l hgives t ht hkind => ?_⟩
  · obtain ⟨vs, htokens, hbare⟩ := tokenize_between ha hb hbefore hbehind text
    exact ⟨_, vs, htokens, rfl, rfl, content_quoted text, literal?_quoted rfl rfl, hbare⟩
  · have hlexeme := hgives.lexeme t ht
    rw [hkind] at hlexeme
    exact hlexeme.eq_quoted

theorem tokenize_quoted_name :
    let before := "A<".toList
    let behind := ")or'x'".toList
    let ts : List Token := [⟨.identifier, ['A'], ⟨0, 1, 1⟩⟩, ⟨.mark .less, ['<'], ⟨1, 1, 2⟩⟩]
    let us : List Token := [⟨.mark .closeParen, [')'], ⟨0, 1, 1⟩⟩,
      ⟨.keyword .or, ['o', 'r'], ⟨1, 1, 2⟩⟩, ⟨.string, ['\'', 'x', '\''], ⟨3, 1, 4⟩⟩]
    tokenize before = .ok ts ∧ tokenize behind = .ok us ∧
      (∀ x ∈ before.getLast?, PrecedesLiteral x) ∧ (∀ y ∈ behind.head?, FollowsLiteral y) ∧
      ∃ t vs, tokenize (before ++ quoted "O''Brien' or".toList ++ behind) = .ok (ts ++ t :: vs) ∧
        Quoted.content '\'' t.text = "O''Brien' or".toList ∧
        vs.map Token.bare = us.map Token.bare := by
  intro before behind ts us
  have ha : tokenize before = .ok ts := by rfl
  have hb : tokenize behind = .ok us := by rfl
  have hbefore : ∀ x ∈ before.getLast?, PrecedesLiteral x := by
    intro x hx
    obtain rfl := Option.some.inj hx
    exact .inr (by decide)
  have hbehind : ∀ y ∈ behind.head?, FollowsLiteral y := by
    intro y hy
    obtain rfl := Option.some.inj hy
    exact .inr (by decide)
  obtain ⟨t, vs, htokens, _, _, hcontent, _, hbare⟩ :=
    tokenize_quoted.1 "O''Brien' or".toList before behind ts us ha hb hbefore hbehind
  exact ⟨ha, hb, hbefore, hbehind, t, vs, htokens, hcontent, hbare⟩

end RowFilter
