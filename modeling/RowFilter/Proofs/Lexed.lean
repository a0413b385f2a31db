import RowFilter.Proofs.Failure
import RowFilter.Proofs.Lexemes

namespace RowFilter

/-- The tokens of a text that starts at a position. -/
inductive Lexed : Position → List Char → List Token → Prop
  | done {p : Position} {gap : List Char} : (∀ c ∈ gap, isLayout c = true) → Lexed p gap []
  | token {p : Position} {gap rest : List Char} {t : Token} {ts : List Token} :
      (∀ c ∈ gap, isLayout c = true) → t.position = p.after gap → Lexeme t.kind t.text →
      (∀ y ∈ rest.head?, Ends t.kind y) → Lexed (t.position.after t.text) rest ts →
      Lexed p (gap ++ (t.text ++ rest)) (t :: ts)

theorem not_delimiter_of_continuesName {c : Char} (h : continuesName c = true) :
    isDelimiter c = false := by
  cases hc : isDelimiter c with
  | false => rfl
  | true => simp [(not_word_of_isDelimiter hc).2.1] at h

theorem not_delimiter_of_isDigit {c : Char} (h : c.isDigit = true) : isDelimiter c = false := by
  cases hc : isDelimiter c with
  | false => rfl
  | true => simp [(not_word_of_isDelimiter hc).1] at h

theorem not_layout_of_not_delimiter {c : Char} (h : isDelimiter c = false) :
    isLayout c = false := by
  simp only [isDelimiter, Bool.or_eq_false_iff] at h
  exact h.1

theorem Lexeme.head {kind : TokenKind} {text : List Char} (h : Lexeme kind text) :
    ∃ c cs, text = c :: cs ∧ isLayout c = false := by
  cases h with
  | string content => exact ⟨'\'', _, rfl, by decide⟩
  | number h =>
    obtain ⟨d, ds, rfl, hd⟩ := numeral_head h
    exact ⟨d, ds, rfl, not_layout_of_not_delimiter (not_delimiter_of_isDigit hd)⟩
  | word hc _ =>
    have hcontinues := continuesName_of_startsName hc
    exact ⟨_, _, rfl, not_layout_of_not_delimiter (not_delimiter_of_continuesName hcontinues)⟩
  | mark m =>
    obtain ⟨c, cs, hm, hc, _⟩ := mark_head m
    exact ⟨c, cs, hm, hc⟩

namespace Lexer

/-- A lexer moves over a gap and a token behind it. -/
structure Passes (l : Lexer) (gap : List Char) (t : Token) (m : Lexer) : Prop where
  gap_layout : ∀ c ∈ gap, isLayout c = true
  rest_eq : l.rest = gap ++ (t.text ++ m.rest)
  starts : t.position = l.position.after gap
  lexeme : Lexeme t.kind t.text
  ends : ∀ y ∈ m.rest.head?, Ends t.kind y
  position_eq : m.position = t.position.after t.text
  working : m.failed = false

/-- A lexer stands before a text that starts with no token. -/
structure Fails (l : Lexer) (gap : List Char) (c : Char) (cs : List Char) (e : LexError) :
    Prop where
  gap_layout : ∀ d ∈ gap, isLayout d = true
  rest_eq : l.rest = gap ++ c :: cs
  not_layout : isLayout c = false
  read : readToken c cs (l.position.after gap) = .error e

variable {l m : Lexer} {t : Token} {ts : List Token} {n : Nat} {p : Position}

/-- What a step can be: the end of the text, a token or an error. -/
theorem next_cases (h : l.failed = false) :
    (l.next.1 = none ∧ ∀ c ∈ l.rest, isLayout c = true) ∨
    (∃ gap t m, l.next = (some (.ok t), m) ∧ l.Passes gap t m) ∨
    (∃ gap c cs e, l.next.1 = some (.error e) ∧ l.Fails gap c cs e) := by
  have hgap : ∀ c ∈ l.rest.takeWhile isLayout, isLayout c = true := all_takeWhile
  have hsplit := List.takeWhile_append_dropWhile (p := isLayout) (l := l.rest)
  cases hdrop : l.rest.dropWhile isLayout with
  | nil =>
    rw [hdrop, List.append_nil] at hsplit
    refine .inl ⟨by simp [next, h, hdrop], ?_⟩
    rwa [hsplit] at hgap
  | cons c cs =>
    have hhead : ∀ d ∈ (l.rest.dropWhile isLayout).head?, isLayout d = false := head_dropWhile
    have hlayout : isLayout c = false := hhead c (by simp [hdrop])
    rw [hdrop] at hsplit
    cases hread : readToken c cs (l.position.after (l.rest.takeWhile isLayout)) with
    | ok result =>
      obtain ⟨t, rest⟩ := result
      obtain ⟨htext, hlexeme, hends, hstart⟩ := readToken_eq_ok.mp hread
      rw [htext] at hsplit
      have hnext : l.next = (some (.ok t), ⟨rest, t.position.after t.text, false⟩) := by
        simp [next, h, hdrop, hread, hstart]
      exact .inr (.inl ⟨_, t, _, hnext, hgap, hsplit.symm, hstart, hlexeme, hends, rfl, rfl⟩)
    | error e =>
      have hnext : l.next.1 = some (.error e) := by simp [next, h, hdrop, hread]
      exact .inr (.inr ⟨_, c, cs, e, hnext, hgap, hsplit.symm, hlayout, hread⟩)

theorem Passes.shorter {gap : List Char} (h : l.Passes gap t m) :
    m.rest.length < l.rest.length := by
  obtain ⟨c, cs, hc, _⟩ := h.lexeme.head
  rw [h.rest_eq, hc]
  simp only [List.length_append, List.length_cons]
  omega

theorem take_of_none (h : l.next.1 = none) : l.take (n + 1) = .ok [] := by
  rw [take]
  split <;> simp_all

theorem take_of_token (h : l.next = (some (.ok t), m)) :
    l.take (n + 1) = do return t :: (← m.take n) := by
  simp only [take, h]

theorem take_of_error {e : LexError} (h : l.next.1 = some (.error e)) :
    l.take (n + 1) = .error e := by
  rw [take]
  split <;> simp_all

theorem lexed_of_take (hl : l.failed = false) (hn : l.rest.length ≤ n) (h : l.take n = .ok ts) :
    Lexed l.position l.rest ts := by
  induction n generalizing l ts with
  | zero =>
    obtain rfl := Except.ok.inj h
    rw [List.length_eq_zero_iff.mp (Nat.le_zero.mp hn)]
    exact .done (by simp)
  | succ n ih =>
    rcases next_cases hl with ⟨hnone, hgap⟩ | ⟨gap, t, m, hnext, hpasses⟩ | ⟨_, _, _, e, herror, _⟩
    · rw [take_of_none hnone] at h
      obtain rfl := Except.ok.inj h
      exact .done hgap
    · rw [take_of_token hnext] at h
      obtain ⟨us, hus, hpure⟩ := bind_eq_ok.mp h
      obtain rfl := pure_eq_ok.mp hpure
      have hshorter := hpasses.shorter
      have hbehind := ih hpasses.working (by omega) hus
      rw [hpasses.position_eq] at hbehind
      rw [hpasses.rest_eq]
      exact .token hpasses.gap_layout hpasses.starts hpasses.lexeme hpasses.ends hbehind
    · rw [take_of_error herror] at h
      cases h

theorem next_done {gap : List Char} (h : ∀ c ∈ gap, isLayout c = true) :
    (⟨gap, p, false⟩ : Lexer).next = (none, ⟨[], p.after gap, false⟩) := by
  obtain ⟨htake, hdrop⟩ := span_run h [] (by simp)
  rw [List.append_nil] at htake hdrop
  simp [next, htake, hdrop]

theorem next_token {gap rest : List Char} (hgap : ∀ c ∈ gap, isLayout c = true)
    (hp : t.position = p.after gap) (ht : Lexeme t.kind t.text)
    (hrest : ∀ y ∈ rest.head?, Ends t.kind y) :
    (⟨gap ++ (t.text ++ rest), p, false⟩ : Lexer).next =
      (some (.ok t), ⟨rest, t.position.after t.text, false⟩) := by
  obtain ⟨c, cs, hc, hlayout⟩ := ht.head
  obtain ⟨htake, hdrop⟩ := span_run hgap (t.text ++ rest) (by simp [hc, hlayout])
  have htext : t.text ++ rest = c :: (cs ++ rest) := by simp [hc]
  have hread := readToken_eq_ok.mpr ⟨htext.symm, ht, hrest, hp⟩
  simp only [next, Bool.false_eq_true, if_false, htake, hdrop]
  rw [htext]
  simp only [hread, hp]

theorem take_of_lexed {text : List Char} (h : Lexed p text ts) (hn : text.length ≤ n) :
    (⟨text, p, false⟩ : Lexer).take n = .ok ts := by
  induction h generalizing n with
  | done hgap =>
    cases n with
    | zero => rfl
    | succ n => exact take_of_none (by rw [next_done hgap])
  | @token p gap rest t ts hgap hp ht hrest _ ih =>
    obtain ⟨d, ds, hd, _⟩ := ht.head
    have hlength : rest.length + 1 ≤ n := by
      simp only [hd, List.length_append, List.length_cons] at hn
      omega
    obtain ⟨less, rfl⟩ : ∃ less, n = less + 1 := ⟨n - 1, by omega⟩
    rw [take_of_token (next_token hgap hp ht hrest), ih (Nat.le_of_succ_le_succ hlength)]
    rfl

theorem take_eq_ok {text : List Char} (hn : text.length ≤ n) :
    (⟨text, p, false⟩ : Lexer).take n = .ok ts ↔ Lexed p text ts :=
  ⟨lexed_of_take rfl hn, fun h => take_of_lexed h hn⟩

end Lexer

theorem tokenize_eq_ok {text : List Char} {ts : List Token} :
    tokenize text = .ok ts ↔ Lexed .start text ts :=
  Lexer.take_eq_ok (Nat.le_refl _)

/-- Two neighbours of which one is a delimiter and that are no mark together. -/
def Seam (x y : Char) : Prop :=
  (isDelimiter x = true ∨ isDelimiter y = true) ∧ ∀ m : Mark, m.spelling ≠ [x, y]

/-- The tokens of two texts stay apart when one text follows the other. -/
def Apart (a b : List Char) : Prop :=
  ∀ x ∈ a.getLast?, ∀ y ∈ b.head?, Seam x y

theorem getLast?_append_of_ne_nil {a b : List Char} (h : b ≠ []) :
    (a ++ b).getLast? = b.getLast? := by
  rw [List.getLast?_append, List.getLast?_eq_some_getLast h, Option.some_or]

theorem Lexeme.ends_of_seam {kind : TokenKind} {text : List Char} {x y : Char}
    (h : Lexeme kind text) (hx : x ∈ text.getLast?) (hseam : Seam x y) : Ends kind y := by
  obtain ⟨hdelimiter, hmark⟩ := hseam
  have hlast : ∀ z, isDelimiter x = false → z = y → isDelimiter z = true := by
    rintro z hx rfl
    simpa [hx] using hdelimiter
  cases h with
  | string content =>
    have hquote : x = '\'' := by
      rw [Quoted.enclose, List.getLast?_concat, Option.mem_some_iff] at hx
      exact hx.symm
    have hy := hlast y (by rw [hquote]; decide) rfl
    exact (not_word_of_isDelimiter hy).2.2
  | number h =>
    have hdigit : x.isDigit = true := by
      cases h with
      | whole _ hall => exact hall x (List.mem_of_getLast? hx)
      | @point ds fs _ _ hfs hall =>
        rw [List.append_cons, getLast?_append_of_ne_nil hfs] at hx
        exact hall x (List.mem_of_getLast? hx)
    exact hlast y (not_delimiter_of_isDigit hdigit) rfl
  | @word c cs hc hcs =>
    have hcontinues : continuesName x = true := by
      rcases List.mem_cons.mp (List.mem_of_getLast? hx) with rfl | hmem
      · exact continuesName_of_startsName hc
      · exact hcs x hmem
    have hy := hlast y (not_delimiter_of_continuesName hcontinues) rfl
    exact ends_wordKind.mpr (not_word_of_isDelimiter hy).2.1
  | mark m =>
    intro longer heq
    obtain ⟨before, hbefore⟩ := List.getLast?_eq_some_iff.mp hx
    have hlength : longer.spelling.length ≤ 2 := by cases longer <;> decide
    rw [hbefore, List.append_assoc] at heq
    have hnil : before = [] := by
      rw [heq, List.length_append] at hlength
      exact List.length_eq_zero_iff.mp (by simpa using hlength)
    subst hnil
    exact hmark longer heq

theorem Lexed.lexeme {p : Position} {text : List Char} {ts : List Token} (h : Lexed p text ts) :
    ∀ t ∈ ts, Lexeme t.kind t.text := by
  induction h with
  | done _ => simp
  | token _ _ ht _ _ ih =>
    intro u hu
    rcases List.mem_cons.mp hu with rfl | hu
    · exact ht
    · exact ih u hu

theorem Lexed.layout {p : Position} {gap text : List Char} {ts : List Token}
    (hgap : ∀ c ∈ gap, isLayout c = true) (h : Lexed (p.after gap) text ts) :
    Lexed p (gap ++ text) ts := by
  cases h with
  | done h =>
    refine .done fun c hc => ?_
    exact (List.mem_append.mp hc).elim (hgap c) (h c)
  | @token _ more rest t ts hmore hp ht hrest hts =>
    rw [← List.append_assoc]
    refine .token (fun c hc => ?_) ?_ ht hrest hts
    · exact (List.mem_append.mp hc).elim (hgap c) (hmore c)
    · rw [hp, Position.after_append]

/-- The tokens of texts that a delimiter keeps apart. -/
theorem Lexed.append {p : Position} {a b : List Char} {ts us : List Token} (ha : Lexed p a ts)
    (hb : Lexed (p.after a) b us) (hapart : Apart a b) : Lexed p (a ++ b) (ts ++ us) := by
  induction ha with
  | done hgap => exact hb.layout hgap
  | @token p gap rest t ts hgap hp ht hrest _ ih =>
    have hafter : p.after (gap ++ (t.text ++ rest)) = (t.position.after t.text).after rest := by
      rw [Position.after_append, Position.after_append, hp]
    rw [hafter] at hb
    have hassoc : gap ++ (t.text ++ rest) ++ b = gap ++ (t.text ++ (rest ++ b)) := by simp
    rw [hassoc]
    refine .token hgap hp ht ?_ (ih hb ?_)
    · intro y hy
      cases rest with
      | cons c cs => exact hrest y hy
      | nil =>
        obtain ⟨c, cs, hc, _⟩ := ht.head
        have hne : t.text ≠ [] := by simp [hc]
        have hlast := List.getLast?_eq_some_getLast hne
        refine ht.ends_of_seam hlast (hapart _ ?_ y hy)
        rw [List.append_nil, getLast?_append_of_ne_nil hne]
        exact hlast
    · intro x hx
      have hne : rest ≠ [] := by
        rintro rfl
        cases hx
      refine hapart x ?_
      rwa [← List.append_assoc, getLast?_append_of_ne_nil hne]

/-- A token that stands nowhere in particular. -/
def Token.bare (t : Token) : Token :=
  { t with position := .start }

/-- The tokens of a text wherever it starts. -/
def Lexes (text : List Char) (words : List Token) : Prop :=
  ∀ p, ∃ ts, Lexed p text ts ∧ ts.map Token.bare = words

theorem Lexed.lexes {p : Position} {text : List Char} {ts : List Token} (h : Lexed p text ts) :
    Lexes text (ts.map Token.bare) := by
  induction h with
  | done hgap => exact fun q => ⟨[], .done hgap, rfl⟩
  | @token p gap rest t ts hgap hp ht hrest _ ih =>
    intro q
    obtain ⟨us, hus, hmap⟩ := ih ((q.after gap).after t.text)
    have hlexed := Lexed.token (t := ⟨t.kind, t.text, q.after gap⟩) hgap rfl ht hrest hus
    exact ⟨_, hlexed, by simp [hmap, Token.bare]⟩

theorem Lexes.append {a b : List Char} {us vs : List Token} (ha : Lexes a us) (hb : Lexes b vs)
    (h : Apart a b) : Lexes (a ++ b) (us ++ vs) := by
  intro p
  obtain ⟨ts, hts, rfl⟩ := ha p
  obtain ⟨ws, hws, rfl⟩ := hb (p.after a)
  exact ⟨ts ++ ws, hts.append hws h, by simp⟩

theorem lexes_of_tokenize {text : List Char} {ts : List Token} (h : tokenize text = .ok ts) :
    Lexes text (ts.map Token.bare) :=
  (tokenize_eq_ok.mp h).lexes

theorem lexes_of_words {text : List Char} {words : List Token}
    (h : (tokenize text).map (List.map Token.bare) = .ok words) : Lexes text words := by
  cases htokens : tokenize text with
  | error e =>
    rw [htokens] at h
    cases h
  | ok ts =>
    rw [htokens] at h
    obtain rfl := Except.ok.inj h
    exact lexes_of_tokenize htokens

theorem Lexes.tokenize {text : List Char} {words : List Token} (h : Lexes text words) :
    ∃ ts, RowFilter.tokenize text = .ok ts ∧ ts.map Token.bare = words := by
  obtain ⟨ts, hts, hmap⟩ := h .start
  exact ⟨ts, tokenize_eq_ok.mpr hts, hmap⟩

theorem Lexeme.lexed {kind : TokenKind} {text : List Char} (h : Lexeme kind text)
    (p : Position) : Lexed p text [⟨kind, text, p⟩] := by
  have hlexed := @Lexed.token p [] [] ⟨kind, text, p⟩ [] (by simp) rfl h (by simp)
    (.done (by simp))
  rwa [List.append_nil, List.nil_append] at hlexed

theorem Lexeme.lexes {kind : TokenKind} {text : List Char} (h : Lexeme kind text) :
    Lexes text [⟨kind, text, .start⟩] :=
  fun p => ⟨_, h.lexed p, rfl⟩

end RowFilter
