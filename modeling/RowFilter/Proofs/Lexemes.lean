import RowFilter.Token.Lexer
import RowFilter.Text.Quoted

namespace RowFilter

/-- Layout and the characters of marks. -/
def isDelimiter (c : Char) : Bool :=
  isLayout c || (Mark.ofChar? c).isSome

theorem mem_of_isDelimiter {c : Char} (h : isDelimiter c = true) :
    c ∈ [' ', '\t', '\n', '\x0c', '\r', '<', '>', '=', ',', '(', ')', '[', ']'] := by
  simp only [isDelimiter, Bool.or_eq_true] at h
  rcases h with h | h
  · simp only [isLayout, Bool.or_eq_true, decide_eq_true_eq] at h
    rcases h with (((rfl | rfl) | rfl) | rfl) | rfl <;> simp
  · unfold Mark.ofChar? at h
    split at h
    next => simp
    next => simp
    next => simp
    next => simp
    next => simp
    next => simp
    next => simp
    next => simp
    next => cases h

/-- A delimiter belongs to no other token than a mark or a string, and begins no string. -/
theorem not_word_of_isDelimiter {c : Char} (h : isDelimiter c = true) :
    c.isDigit = false ∧ continuesName c = false ∧ c ≠ '\'' := by
  have hmem := mem_of_isDelimiter h
  simp only [List.mem_cons, List.not_mem_nil, or_false] at hmem
  rcases hmem with rfl | rfl | rfl | rfl | rfl | rfl | rfl | rfl | rfl | rfl | rfl | rfl | rfl <;>
    decide

theorem continuesName_of_startsName {c : Char} (h : startsName c = true) :
    continuesName c = true := by
  simp only [startsName, continuesName, Bool.or_eq_true] at h ⊢
  exact h.imp Or.inl id

theorem le_of_covers {low high n : Nat} {ranges : List (Nat × Nat)}
    (h : covers ((low, high) :: ranges) n = true) : low ≤ n := by
  unfold covers at h
  split at h
  next => cases h
  next hn => omega

theorem not_digit_of_startsName {c : Char} (h : startsName c = true) : c.isDigit = false := by
  simp only [startsName, Bool.or_eq_true, decide_eq_true_eq] at h
  rcases h with h | rfl
  · have hlow : 0x41 ≤ c.toNat := le_of_covers h
    cases hdigit : c.isDigit with
    | false => rfl
    | true =>
      simp only [Char.isDigit, Bool.and_eq_true, decide_eq_true_eq] at hdigit
      have hhigh : c.toNat ≤ 57 := UInt32.le_iff_toNat_le.mp hdigit.2
      omega
  · decide

theorem startsName_quote : startsName '\'' = false := by decide

/-- Digits, or digits with a point between them. -/
inductive Numeral : List Char → Prop
  | whole {ds : List Char} : ds ≠ [] → (∀ d ∈ ds, d.isDigit = true) → Numeral ds
  | point {ds fs : List Char} : ds ≠ [] → (∀ d ∈ ds, d.isDigit = true) → fs ≠ [] →
      (∀ f ∈ fs, f.isDigit = true) → Numeral (ds ++ '.' :: fs)

/-- The texts of each kind of token. -/
inductive Lexeme : TokenKind → List Char → Prop
  | string (content : List Char) : Lexeme .string (Quoted.enclose '\'' content)
  | number {text : List Char} : Numeral text → Lexeme .number text
  | word {c : Char} {cs : List Char} : startsName c = true → (∀ d ∈ cs, continuesName d = true) →
      Lexeme (wordKind (c :: cs)) (c :: cs)
  | mark (m : Mark) : Lexeme (.mark m) m.spelling

theorem Lexeme.numeral {text : List Char} (h : Lexeme .number text) : Numeral text := by
  generalize hkind : TokenKind.number = kind at h
  cases h with
  | number h => exact h
  | word hc hcs =>
    unfold wordKind at hkind
    split at hkind <;> cases hkind
  | _ => cases hkind

/-- Whether a token stays as it is when a character stands behind it. -/
def Ends (kind : TokenKind) (y : Char) : Prop :=
  match kind with
  | .string => y ≠ '\''
  | .number => isDelimiter y = true
  | .identifier | .keyword _ => continuesName y = false
  | .mark m => ∀ longer : Mark, longer.spelling ≠ m.spelling ++ [y]

theorem span_run {p : Char → Bool} {run : List Char} (hrun : ∀ c ∈ run, p c = true)
    (rest : List Char) (hrest : ∀ c ∈ rest.head?, p c = false) :
    (run ++ rest).takeWhile p = run ∧ (run ++ rest).dropWhile p = rest := by
  have hstop : rest.takeWhile p = [] ∧ rest.dropWhile p = rest := by
    cases rest with
    | nil => simp
    | cons c cs => simp [hrest c rfl]
  rw [List.takeWhile_append_of_pos hrun, List.dropWhile_append_of_pos hrun, hstop.1, hstop.2]
  simp

theorem head_dropWhile {p : Char → Bool} {text : List Char} :
    ∀ c ∈ (text.dropWhile p).head?, p c = false := by
  intro c hc
  have hne : text.dropWhile p ≠ [] := by
    rintro hnil
    simp [hnil] at hc
  have hhead := List.head_dropWhile_not p hne
  rw [List.head?_eq_some_head hne, Option.mem_some_iff] at hc
  rwa [hc] at hhead

theorem splitQuoted_eq_some {cs body rest : List Char} :
    splitQuoted cs = some (body, rest) ↔ cs = body ++ rest ∧
      (∃ content, body = Quoted.double '\'' content ++ ['\'']) ∧ ∀ c ∈ rest.head?, c ≠ '\'' := by
  constructor
  · intro h
    induction cs using splitQuoted.induct generalizing body with
    | case1 => simp [splitQuoted] at h
    | case2 cs ih =>
      simp only [splitQuoted, Option.map_eq_some_iff] at h
      obtain ⟨⟨inner, after⟩, hinner, hpair⟩ := h
      obtain ⟨rfl, rfl⟩ := Prod.mk.inj hpair
      obtain ⟨rfl, ⟨content, rfl⟩, hafter⟩ := ih hinner
      exact ⟨rfl, ⟨'\'' :: content, by simp [Quoted.double]⟩, hafter⟩
    | case3 cs hcs =>
      rw [splitQuoted] at h
      · obtain ⟨rfl, rfl⟩ := Prod.mk.inj (Option.some.inj h)
        refine ⟨rfl, ⟨[], rfl⟩, ?_⟩
        rintro c hc rfl
        obtain ⟨tail, rfl⟩ := List.head?_eq_some_iff.mp hc
        exact hcs tail rfl
      · exact hcs
    | case4 c cs hpair hquote ih =>
      rw [splitQuoted] at h
      · simp only [Option.map_eq_some_iff] at h
        obtain ⟨⟨inner, after⟩, hinner, hpair⟩ := h
        obtain ⟨rfl, rfl⟩ := Prod.mk.inj hpair
        obtain ⟨rfl, ⟨content, rfl⟩, hafter⟩ := ih hinner
        have hc : c ≠ '\'' := hquote
        exact ⟨rfl, ⟨c :: content, by simp [Quoted.double, hc]⟩, hafter⟩
      · exact hpair
      · exact hquote
  · rintro ⟨rfl, ⟨content, rfl⟩, hrest⟩
    induction content with
    | nil =>
      cases rest with
      | nil => rfl
      | cons d rest =>
        have hd : d ≠ '\'' := hrest d rfl
        simp [splitQuoted, hd]
    | cons c content ih =>
      by_cases hc : c = '\''
      · simp only [Quoted.double, hc, if_true, List.cons_append, splitQuoted, ih, Option.map_some]
      · simp only [Quoted.double, hc, if_false, List.cons_append]
        rw [splitQuoted]
        · rw [ih]
          rfl
        · exact fun _ h _ => hc h
        · exact hc

theorem endsNumber_iff {rest : List Char} :
    endsNumber rest = true ↔ ∀ y ∈ rest.head?, isDelimiter y = true := by
  cases rest <;> simp [endsNumber, isDelimiter]

theorem numeral_head {text : List Char} (h : Numeral text) :
    ∃ d ds, text = d :: ds ∧ d.isDigit = true := by
  cases h with
  | whole hne hall =>
    obtain ⟨d, ds, rfl⟩ := List.exists_cons_of_ne_nil hne
    exact ⟨d, ds, rfl, hall d (by simp)⟩
  | point hne hall _ _ =>
    obtain ⟨d, ds, rfl⟩ := List.exists_cons_of_ne_nil hne
    exact ⟨d, _, rfl, hall d (by simp)⟩

theorem all_takeWhile {p : Char → Bool} {text : List Char} :
    ∀ c ∈ text.takeWhile p, p c = true := by
  intro c hc
  exact List.all_eq_true.mp List.all_takeWhile c hc

theorem splitNumber_point {text cs : List Char} (h : text.dropWhile Char.isDigit = '.' :: cs) :
    splitNumber text =
      if !(cs.takeWhile Char.isDigit).isEmpty && endsNumber (cs.dropWhile Char.isDigit) then
        .ok (text.takeWhile Char.isDigit ++ '.' :: cs.takeWhile Char.isDigit,
          cs.dropWhile Char.isDigit)
      else .error (text.takeWhile Char.isDigit ++ '.' :: cs.takeWhile Char.isDigit) := by
  simp [splitNumber, h]

theorem splitNumber_whole {text : List Char} (h : ∀ cs, text.dropWhile Char.isDigit ≠ '.' :: cs) :
    splitNumber text =
      if endsNumber (text.dropWhile Char.isDigit) then
        .ok (text.takeWhile Char.isDigit, text.dropWhile Char.isDigit)
      else .error (text.takeWhile Char.isDigit) := by
  unfold splitNumber
  split
  next cs hcs => exact absurd hcs (h cs)
  next => simp

theorem splitNumber_eq_ok {text read rest : List Char}
    (hwhole : text.takeWhile Char.isDigit ≠ []) :
    splitNumber text = .ok (read, rest) ↔
      text = read ++ rest ∧ Numeral read ∧ ∀ y ∈ rest.head?, isDelimiter y = true := by
  have hsplit : text.takeWhile Char.isDigit ++ text.dropWhile Char.isDigit = text :=
    List.takeWhile_append_dropWhile
  constructor
  · intro h
    by_cases hpoint : ∃ cs, text.dropWhile Char.isDigit = '.' :: cs
    · obtain ⟨cs, hcs⟩ := hpoint
      rw [splitNumber_point hcs] at h
      split at h
      next hgood =>
        obtain ⟨rfl, rfl⟩ := Prod.mk.inj (Except.ok.inj h)
        obtain ⟨hdigits, hends⟩ := Bool.and_eq_true_iff.mp hgood
        have hfraction : cs.takeWhile Char.isDigit ≠ [] := by simpa using hdigits
        refine ⟨?_, .point hwhole all_takeWhile hfraction all_takeWhile, endsNumber_iff.mp hends⟩
        rw [List.append_assoc, List.cons_append, List.takeWhile_append_dropWhile, ← hcs, hsplit]
      next => cases h
    · rw [splitNumber_whole (fun cs hcs => hpoint ⟨cs, hcs⟩)] at h
      split at h
      next hends =>
        obtain ⟨rfl, rfl⟩ := Prod.mk.inj (Except.ok.inj h)
        exact ⟨hsplit.symm, .whole hwhole all_takeWhile, endsNumber_iff.mp hends⟩
      next => cases h
  · rintro ⟨rfl, hread, hrest⟩
    have hstop : ∀ y ∈ rest.head?, y.isDigit = false := fun y hy =>
      (not_word_of_isDelimiter (hrest y hy)).1
    cases hread with
    | whole hne hall =>
      obtain ⟨htake, hdrop⟩ := span_run hall rest hstop
      rw [splitNumber_whole, htake, hdrop, if_pos (endsNumber_iff.mpr hrest)]
      rintro cs hcs
      rw [hdrop] at hcs
      have hdot := hrest '.' (by simp [hcs])
      exact absurd hdot (by decide)
    | @point ds fs hne hall hfs hfall =>
      obtain ⟨htake, hdrop⟩ := span_run hall ('.' :: (fs ++ rest))
        (by simp +contextual [Option.mem_def])
      obtain ⟨hftake, hfdrop⟩ := span_run hfall rest hstop
      have hassoc : ds ++ '.' :: fs ++ rest = ds ++ '.' :: (fs ++ rest) := by simp
      have hnonempty : fs.isEmpty = false := by simpa using hfs
      rw [hassoc, splitNumber_point hdrop, htake, hftake, hfdrop, hnonempty,
        endsNumber_iff.mpr hrest]
      rfl

/-- Only `<` and `>` are marks that another character makes longer. -/
theorem ends_mark_iff {m : Mark} {y : Char} :
    Ends (.mark m) y ↔ (m = .less → y ≠ '=' ∧ y ≠ '>') ∧ (m = .greater → y ≠ '=') := by
  constructor
  · intro h
    refine ⟨?_, ?_⟩
    · rintro rfl
      refine ⟨?_, ?_⟩
      · rintro rfl
        exact h .lessOrEqual rfl
      · rintro rfl
        exact h .notEqual rfl
    · rintro rfl rfl
      exact h .greaterOrEqual rfl
  · rintro ⟨hless, hgreater⟩ longer heq
    have heq := heq.symm
    cases m <;> cases longer <;> simp_all [Mark.spelling]

theorem spelling_of_ofChar? {c : Char} {m : Mark} (h : Mark.ofChar? c = some m) :
    m.spelling = [c] := by
  unfold Mark.ofChar? at h
  split at h <;> cases h <;> rfl

theorem first?_sound {text : List Char} {m : Mark} (h : Mark.first? text = some m) :
    ∃ rest, text = m.spelling ++ rest ∧ ∀ y ∈ rest.head?, Ends (.mark m) y := by
  unfold Mark.first? at h
  split at h
  next cs =>
    obtain rfl := Option.some.inj h
    exact ⟨cs, rfl, fun y _ => ends_mark_iff.mpr (by simp)⟩
  next cs =>
    obtain rfl := Option.some.inj h
    exact ⟨cs, rfl, fun y _ => ends_mark_iff.mpr (by simp)⟩
  next cs =>
    obtain rfl := Option.some.inj h
    exact ⟨cs, rfl, fun y _ => ends_mark_iff.mpr (by simp)⟩
  next c cs hle hne hge =>
    have hspelling := spelling_of_ofChar? h
    refine ⟨cs, by rw [hspelling]; rfl, fun y hy => ends_mark_iff.mpr ⟨?_, ?_⟩⟩
    · rintro rfl
      obtain ⟨tail, rfl⟩ := List.head?_eq_some_iff.mp hy
      have hc : c = '<' := (List.cons.inj hspelling).1.symm
      exact ⟨fun hy => hle tail hc (by rw [hy]), fun hy => hne tail hc (by rw [hy])⟩
    · rintro rfl rfl
      obtain ⟨tail, rfl⟩ := List.head?_eq_some_iff.mp hy
      have hc : c = '>' := (List.cons.inj hspelling).1.symm
      exact hge tail hc rfl
  next => cases h

theorem first?_complete {m : Mark} {rest : List Char}
    (h : ∀ y ∈ rest.head?, Ends (.mark m) y) : Mark.first? (m.spelling ++ rest) = some m := by
  cases rest with
  | nil => cases m <;> rfl
  | cons y rest =>
    obtain ⟨hless, hgreater⟩ := ends_mark_iff.mp (h y rfl)
    cases m <;> simp_all [Mark.spelling, Mark.first?, Mark.ofChar?]

/-- A mark begins no other kind of token. -/
theorem mark_head (m : Mark) : ∃ c cs, m.spelling = c :: cs ∧ isLayout c = false ∧
    c ≠ '\'' ∧ c.isDigit = false ∧ startsName c = false := by
  cases m <;> exact ⟨_, _, rfl, by decide⟩

variable {c : Char} {cs rest text : List Char} {p : Position} {t : Token}

/-- What one reading step can do: the first character decides the kind of the token. -/
theorem readToken_cases (h : readToken c cs p = .ok (t, rest)) :
    (c = '\'' ∧ ∃ body, splitQuoted cs = some (body, rest) ∧ t = ⟨.string, c :: body, p⟩) ∨
    (c.isDigit = true ∧ ∃ read, splitNumber (c :: cs) = .ok (read, rest) ∧
      t = ⟨.number, read, p⟩) ∨
    (startsName c = true ∧ rest = cs.dropWhile continuesName ∧
      ∃ word, word = c :: cs.takeWhile continuesName ∧ t = ⟨wordKind word, word, p⟩) ∨
    ∃ m, Mark.first? (c :: cs) = some m ∧ rest = (c :: cs).drop m.spelling.length ∧
      t = ⟨.mark m, m.spelling, p⟩ := by
  unfold readToken at h
  split at h
  next hc =>
    split at h
    next body after hbody =>
      obtain ⟨rfl, rfl⟩ := Prod.mk.inj (Except.ok.inj h)
      exact .inl ⟨hc, body, hbody, rfl⟩
    next => cases h
  next =>
    split at h
    next hc =>
      split at h
      next read after hread =>
        obtain ⟨rfl, rfl⟩ := Prod.mk.inj (Except.ok.inj h)
        exact .inr (.inl ⟨hc, read, hread, rfl⟩)
      next => cases h
    next =>
      split at h
      next hc =>
        obtain ⟨rfl, rfl⟩ := Prod.mk.inj (Except.ok.inj h)
        exact .inr (.inr (.inl ⟨hc, rfl, _, rfl, rfl⟩))
      next =>
        split at h
        next m hm =>
          obtain ⟨rfl, rfl⟩ := Prod.mk.inj (Except.ok.inj h)
          exact .inr (.inr (.inr ⟨m, hm, rfl, rfl⟩))
        next => cases h

theorem ends_wordKind {word : List Char} {y : Char} :
    Ends (wordKind word) y ↔ continuesName y = false := by
  unfold wordKind
  split <;> rfl

theorem readToken_sound (h : readToken c cs p = .ok (t, rest)) :
    c :: cs = t.text ++ rest ∧ Lexeme t.kind t.text ∧ (∀ y ∈ rest.head?, Ends t.kind y) ∧
      t.position = p := by
  rcases readToken_cases h with ⟨rfl, body, hbody, rfl⟩ | ⟨hc, read, hread, rfl⟩ |
    ⟨hc, rfl, word, rfl, rfl⟩ | ⟨m, hm, rfl, rfl⟩
  · obtain ⟨rfl, ⟨content, rfl⟩, hrest⟩ := splitQuoted_eq_some.mp hbody
    exact ⟨rfl, .string content, hrest, rfl⟩
  · obtain ⟨htext, hnumeral, hrest⟩ := (splitNumber_eq_ok (by simp [hc])).mp hread
    exact ⟨htext, .number hnumeral, hrest, rfl⟩
  · exact ⟨by simp, .word hc all_takeWhile,
      fun y hy => ends_wordKind.mpr (head_dropWhile y hy), rfl⟩
  · obtain ⟨behind, htext, hrest⟩ := first?_sound hm
    have hdrop : (c :: cs).drop m.spelling.length = behind := by simp [htext]
    rw [hdrop]
    exact ⟨htext, .mark m, hrest, rfl⟩

theorem readToken_string {content : List Char} (hrest : ∀ y ∈ rest.head?, y ≠ '\'')
    (htext : c :: cs = Quoted.enclose '\'' content ++ rest) :
    readToken c cs p = .ok (⟨.string, Quoted.enclose '\'' content, p⟩, rest) := by
  obtain ⟨rfl, hcs⟩ := List.cons.inj htext
  have hsplit := splitQuoted_eq_some.mpr ⟨hcs, ⟨content, rfl⟩, hrest⟩
  simp [readToken, hsplit, Quoted.enclose]

theorem readToken_number (h : Numeral text) (hrest : ∀ y ∈ rest.head?, isDelimiter y = true)
    (htext : c :: cs = text ++ rest) : readToken c cs p = .ok (⟨.number, text, p⟩, rest) := by
  obtain ⟨d, ds, rfl, hd⟩ := numeral_head h
  obtain ⟨rfl, rfl⟩ := List.cons.inj htext
  have hquote : c ≠ '\'' := by
    rintro rfl
    exact absurd hd (by decide)
  have hsplit := (splitNumber_eq_ok (by simp [hd])).mpr ⟨rfl, h, hrest⟩
  rw [List.cons_append] at hsplit
  simp [readToken, hquote, hd, hsplit]

theorem readToken_word {d : Char} {ds : List Char} (hd : startsName d = true)
    (hds : ∀ e ∈ ds, continuesName e = true) (hrest : ∀ y ∈ rest.head?, continuesName y = false)
    (htext : c :: cs = d :: ds ++ rest) :
    readToken c cs p = .ok (⟨wordKind (d :: ds), d :: ds, p⟩, rest) := by
  obtain ⟨rfl, rfl⟩ := List.cons.inj htext
  have hquote : c ≠ '\'' := by
    rintro rfl
    rw [startsName_quote] at hd
    cases hd
  obtain ⟨htake, hdrop⟩ := span_run hds rest hrest
  simp [readToken, hquote, not_digit_of_startsName hd, hd, htake, hdrop]

theorem readToken_mark {m : Mark} (hrest : ∀ y ∈ rest.head?, Ends (.mark m) y)
    (htext : c :: cs = m.spelling ++ rest) :
    readToken c cs p = .ok (⟨.mark m, m.spelling, p⟩, rest) := by
  obtain ⟨d, ds, hm, _, hquote, hdigit, hname⟩ := mark_head m
  have hfirst := first?_complete hrest
  rw [← htext] at hfirst
  obtain rfl : c = d := by
    rw [hm] at htext
    exact (List.cons.inj htext).1
  have hdrop : (c :: cs).drop m.spelling.length = rest := by simp [htext]
  simp only [readToken, hquote, hdigit, hname, Bool.false_eq_true, if_false, hfirst, hdrop]

theorem readToken_complete {kind : TokenKind} (h : Lexeme kind text)
    (htext : c :: cs = text ++ rest) (hrest : ∀ y ∈ rest.head?, Ends kind y) :
    readToken c cs p = .ok (⟨kind, text, p⟩, rest) := by
  cases h with
  | string content => exact readToken_string hrest htext
  | number hnumeral => exact readToken_number hnumeral hrest htext
  | word hd hds =>
    exact readToken_word hd hds (fun y hy => ends_wordKind.mp (hrest y hy)) htext
  | mark m => exact readToken_mark hrest htext

/-- One reading step takes exactly the longest token at the start of a text. -/
theorem readToken_eq_ok : readToken c cs p = .ok (t, rest) ↔
    c :: cs = t.text ++ rest ∧ Lexeme t.kind t.text ∧ (∀ y ∈ rest.head?, Ends t.kind y) ∧
      t.position = p := by
  refine ⟨readToken_sound, ?_⟩
  rintro ⟨htext, hlexeme, hrest, rfl⟩
  exact readToken_complete hlexeme htext hrest

end RowFilter
