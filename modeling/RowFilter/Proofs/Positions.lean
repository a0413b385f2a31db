import RowFilter.Proofs.Sessions
import RowFilter.SortOrder

namespace RowFilter

/-- The byte offsets between two characters of a text, and those of its two ends. -/
def Boundary (text : List Char) (n : Nat) : Prop :=
  ∃ before after, text = before ++ after ∧ utf8Length before = n

namespace Position

variable {text read : List Char} {p q r : Position}

/-- A position whose line and column are those of its offset in a text. -/
structure TrueIn (text : List Char) (p : Position) : Prop where
  boundary : Boundary text p.offset
  offset_le : p.offset ≤ utf8Length text
  located : p = locate text p.offset

/-- The reading order of positions, by line and then by column. -/
def Precedes (p q : Position) : Prop :=
  p.line < q.line ∨ p.line = q.line ∧ p.column < q.column

theorem Precedes.trans (hpq : p.Precedes q) (hqr : q.Precedes r) : p.Precedes r := by
  unfold Precedes at *
  omega

theorem precedes_next (p : Position) (c : Char) : p.Precedes (p.next c) := by
  unfold Precedes next
  split
  next => exact .inl (Nat.lt_succ_self _)
  next => exact .inr ⟨rfl, Nat.lt_succ_self _⟩

theorem precedes_after (p : Position) (c : Char) (cs : List Char) :
    p.Precedes (p.after (c :: cs)) := by
  induction cs generalizing p c with
  | nil => exact precedes_next p c
  | cons d cs ih => exact (precedes_next p c).trans (ih (p.next c) d)

/-- Line and column counted from a text that ends where the position is. -/
def behind (read : List Char) : Position :=
  ⟨utf8Length read, read.count '\n' + 1, (read.reverse.takeWhile (· ≠ '\n')).length + 1⟩

theorem behind_concat (read : List Char) (c : Char) :
    behind (read ++ [c]) = (behind read).next c := by
  have hsize : utf8Length [c] = c.utf8Size := Nat.add_zero _
  unfold behind next
  by_cases hc : c = '\n'
  · subst hc
    simp [hsize]
  · simp [hsize, hc, List.count_append]

/-- Moving over characters one by one counts what stands before. -/
theorem after_behind (read more : List Char) :
    (behind read).after more = behind (read ++ more) := by
  induction more generalizing read with
  | nil => simp
  | cons c cs ih => rw [after_cons, ← behind_concat, ih, List.append_assoc, List.singleton_append]

theorem start_after (read : List Char) : start.after read = behind read :=
  after_behind [] read

theorem takeBytes_append (before after : List Char) :
    takeBytes (before ++ after) (utf8Length before) = some before := by
  induction before with
  | nil => cases after <;> rfl
  | cons c cs ih =>
    have hsize := c.utf8Size_pos
    obtain ⟨k, hk⟩ : ∃ k, utf8Length (c :: cs) = k + 1 :=
      ⟨utf8Length (c :: cs) - 1, by rw [utf8Length]; omega⟩
    have hfits : ¬ k + 1 < c.utf8Size := by
      rw [utf8Length] at hk
      omega
    have hrest : k + 1 - c.utf8Size = utf8Length cs := by
      rw [utf8Length] at hk
      omega
    rw [hk, List.cons_append, takeBytes, if_neg hfits, hrest, ih]
    rfl

/-- Counting from the text finds the position that moving over its characters leads to. -/
theorem locate_append (before after : List Char) :
    locate (before ++ after) (utf8Length before) = start.after before := by
  have hmin : min (utf8Length before) (utf8Length (before ++ after)) = utf8Length before := by
    rw [utf8Length_append]
    omega
  simp only [locate, hmin, takeBytes_append, Option.getD_some]
  rw [start_after]
  rfl

/-- Every position that is reached by moving over characters of a text is true in it. -/
theorem trueIn_after {before after : List Char} (htext : text = before ++ after)
    (hp : p = start.after before) : p.TrueIn text := by
  have hoffset : p.offset = utf8Length before := by
    rw [hp, offset_after]
    simp [start]
  refine ⟨⟨before, after, htext, hoffset.symm⟩, ?_, ?_⟩
  · rw [hoffset, htext, utf8Length_append]
    omega
  · rw [hoffset, htext, locate_append, hp]

theorem trueIn_endOf (text : List Char) : (endOf text).TrueIn text := by
  have hend : endOf text = start.after text := by
    have hlocate := locate_append text []
    rwa [List.append_nil] at hlocate
  exact trueIn_after (List.append_nil text).symm hend

/-- A boundary behind another one stands later in reading order. -/
theorem locate_precedes {m n : Nat} (hm : Boundary text m) (hn : Boundary text n) (hlt : m < n) :
    (locate text m).Precedes (locate text n) := by
  obtain ⟨first, behindFirst, htext, rfl⟩ := hm
  obtain ⟨second, behindSecond, hsame, rfl⟩ := hn
  have hsplit : first ++ behindFirst = second ++ behindSecond := htext.symm.trans hsame
  -- One prefix goes on from the other, and the offsets say which.
  rcases List.append_eq_append_iff.mp hsplit with ⟨more, hsecond, _⟩ | ⟨more, hfirst, _⟩
  · cases more with
    | nil =>
      rw [hsecond, List.append_nil] at hlt
      omega
    | cons c cs =>
      have hlocate := locate_append second behindSecond
      rw [htext, locate_append, hsplit, hlocate, hsecond, after_append]
      exact precedes_after _ c cs
  · rw [hfirst, utf8Length_append] at hlt
    omega

end Position

theorem splitNumber_error {text read : List Char} (h : splitNumber text = .error read) :
    read <+: text := by
  have hsplit : text.takeWhile Char.isDigit ++ text.dropWhile Char.isDigit = text :=
    List.takeWhile_append_dropWhile
  by_cases hpoint : ∃ cs, text.dropWhile Char.isDigit = '.' :: cs
  · obtain ⟨cs, hcs⟩ := hpoint
    rw [splitNumber_point hcs] at h
    split at h
    next => cases h
    next =>
      obtain rfl := Except.error.inj h
      refine ⟨cs.dropWhile Char.isDigit, ?_⟩
      rw [List.append_assoc, List.cons_append, List.takeWhile_append_dropWhile, ← hcs, hsplit]
  · rw [splitNumber_whole (fun cs hcs => hpoint ⟨cs, hcs⟩)] at h
    split at h
    next => cases h
    next =>
      obtain rfl := Except.error.inj h
      exact ⟨_, hsplit⟩

/-- A step fails at its start or, in a number, behind what was read of it. -/
theorem readToken_error {c : Char} {cs : List Char} {p : Position} {e : LexError}
    (h : readToken c cs p = .error e) : ∃ read, read <+: c :: cs ∧ e.position = p.after read := by
  unfold readToken at h
  split at h
  next =>
    split at h
    next => cases h
    next =>
      obtain rfl := Except.error.inj h
      exact ⟨[], List.nil_prefix, rfl⟩
  next =>
    split at h
    next =>
      split at h
      next => cases h
      next read hread =>
        obtain rfl := Except.error.inj h
        exact ⟨read, splitNumber_error hread, rfl⟩
    next =>
      split at h
      next => cases h
      next =>
        split at h
        next => cases h
        next =>
          obtain rfl := Except.error.inj h
          exact ⟨[], List.nil_prefix, rfl⟩

/-- A place in a text, as the characters that are left with the position they start at. -/
def Stands (text : List Char) (p : Position) (rest : List Char) : Prop :=
  ∃ read, text = read ++ rest ∧ p = Position.start.after read

namespace Stands

variable {text rest more : List Char} {p : Position}

theorem start (text : List Char) : Stands text .start text :=
  ⟨[], rfl, rfl⟩

theorem after (h : Stands text p (more ++ rest)) : Stands text (p.after more) rest := by
  obtain ⟨read, htext, hp⟩ := h
  refine ⟨read ++ more, ?_, ?_⟩
  · rw [htext, List.append_assoc]
  · rw [hp, Position.after_append]

theorem trueIn (h : Stands text p rest) : p.TrueIn text := by
  obtain ⟨_, htext, hp⟩ := h
  exact Position.trueIn_after htext hp

end Stands

/-- Tokens that are where they say, or an error that is. -/
def Located (text : List Char) : Except LexError (List Token) → Prop
  | .ok ts => ∀ t ∈ ts, t.position.TrueIn text
  | .error e => e.position.TrueIn text

theorem Located.nil (text : List Char) : Located text (.ok []) := by
  intro t ht
  cases ht

theorem Located.cons {text : List Char} {t : Token} {result : Except LexError (List Token)}
    (h : Located text result) (ht : t.position.TrueIn text) :
    Located text (do return t :: (← result)) := by
  cases result with
  | ok ts => exact List.forall_mem_cons.mpr ⟨ht, h⟩
  | error e => exact h

namespace Lexer

variable {text : List Char} {l m : Lexer} {t : Token} {e : LexError} {ts : List Token}

theorem Passes.stands {gap : List Char} (h : l.Passes gap t m)
    (hl : Stands text l.position l.rest) :
    Stands text t.position (t.text ++ m.rest) ∧ Stands text m.position m.rest := by
  rw [h.rest_eq] at hl
  have ht := hl.after
  rw [← h.starts] at ht
  refine ⟨ht, ?_⟩
  rw [h.position_eq]
  exact ht.after

theorem Fails.stands {gap : List Char} {c : Char} {cs : List Char} (h : l.Fails gap c cs e)
    (hl : Stands text l.position l.rest) : e.position.TrueIn text := by
  obtain ⟨read, ⟨behind, hread⟩, he⟩ := readToken_error h.read
  rw [h.rest_eq, ← hread] at hl
  rw [he]
  exact hl.after.after.trueIn

/-- A lexer that stands in a text still does after a step. -/
theorem stands_next (hl : Stands text l.position l.rest) :
    Stands text l.next.2.position l.next.2.rest := by
  have hsplit := List.takeWhile_append_dropWhile (p := isLayout) (l := l.rest)
  cases hfailed : l.failed with
  | true =>
    have hstay : l.next.2 = l := by simp [next, hfailed]
    rwa [hstay]
  | false =>
    cases hdrop : l.rest.dropWhile isLayout with
    | nil =>
      have hnext : l.next.2 = ⟨[], l.position.after (l.rest.takeWhile isLayout), false⟩ := by
        simp [next, hfailed, hdrop]
      rw [hnext]
      rw [← hsplit, hdrop] at hl
      exact hl.after
    | cons c cs =>
      cases hread : readToken c cs (l.position.after (l.rest.takeWhile isLayout)) with
      | ok result =>
        obtain ⟨t, rest⟩ := result
        obtain ⟨m, hnext⟩ : ∃ m, l.next = (some (.ok t), m) :=
          ⟨_, by simp only [next, hfailed, hdrop, hread]; rfl⟩
        obtain ⟨gap, hpasses⟩ := passes_of_next hnext
        rw [hnext]
        exact (hpasses.stands hl).2
      | error e =>
        have hnext : l.next.2 = ⟨c :: cs, l.position.after (l.rest.takeWhile isLayout), true⟩ := by
          simp [next, hfailed, hdrop, hread]
        rw [hnext]
        rw [← hsplit, hdrop] at hl
        exact hl.after

theorem Visits.stands (h : Visits text l) : Stands text l.position l.rest := by
  induction h with
  | start => exact .start text
  | next _ ih => exact stands_next ih

theorem token_trueIn (hl : Stands text l.position l.rest) (h : l.next.1 = some (.ok t)) :
    t.position.TrueIn text := by
  obtain ⟨gap, hpasses⟩ := passes_of_next (Prod.ext h rfl)
  exact (hpasses.stands hl).1.trueIn

theorem error_trueIn (hl : Stands text l.position l.rest) (h : l.next.1 = some (.error e)) :
    e.position.TrueIn text := by
  have hworking : l.failed = false := by
    cases hfailed : l.failed with
    | false => rfl
    | true => simp [next, hfailed] at h
  rcases next_cases hworking with ⟨hnone, _⟩ | ⟨_, _, _, hnext, _⟩ | ⟨gap, c, cs, f, herror, hfails⟩
  · simp [h] at hnone
  · simp [hnext] at h
  · rw [h] at herror
    obtain rfl := Except.error.inj (Option.some.inj herror)
    exact hfails.stands hl

/-- The tokens that are taken are where they say, and so is the error that there is instead. -/
theorem take_located {n : Nat} (hl : Stands text l.position l.rest) : Located text (l.take n) := by
  induction n generalizing l with
  | zero => exact .nil text
  | succ n ih =>
    have hstep := stands_next hl
    unfold take
    split
    next => exact .nil text
    next e m hnext => exact error_trueIn hl (by rw [hnext])
    next t m hnext =>
      rw [hnext] at hstep
      exact (ih hstep).cons (token_trueIn hl (by rw [hnext]))

end Lexer

section

variable {text : List Char} {tokens : List Token}

theorem Stop.toError_trueIn {stop : Stop} (htokens : ∀ t ∈ tokens, t.position.TrueIn text)
    (hrest : stop.rest <:+ tokens) (hnumber : ∀ t, stop.reason = .invalidNumber t → t ∈ tokens) :
    (stop.toError text tokens).position.TrueIn text := by
  obtain ⟨reason, rest, opened⟩ := stop
  cases reason with
  | expected e =>
    cases rest with
    | nil => exact Position.trueIn_endOf text
    | cons t rest => exact htokens t (hrest.subset (by simp))
  | invalidNumber t => exact htokens t (hnumber t rfl)
  | tooDeep =>
    show (lastPosition text tokens rest).TrueIn text
    unfold lastPosition
    split
    next t ht => exact htokens t (List.mem_of_getElem? ht)
    next => exact Position.trueIn_endOf text

theorem Session.Step.trueIn {s t : Session} {c : Call} {answer : Except ParseError Expr}
    {e : ParseError} (h : s.Step c answer t) (hs : s.Kept)
    (htokens : ∀ t ∈ s.tokens, t.position.TrueIn s.source) (he : answer = .error e) :
    e.position.TrueIn s.source := by
  have hrest := h.rest_suffix.trans hs.rest_suffix
  cases h with
  | read _ _ => cases he
  | trailing _ _ =>
    obtain rfl := Except.error.inj he
    exact Stop.toError_trueIn htokens hrest (by simp)
  | stopped hin =>
    obtain rfl := Except.error.inj he
    refine Stop.toError_trueIn htokens hrest fun u hu => ?_
    exact hs.rest_suffix.subset (hin.number_mem u hu)

theorem Session.Over.trueIn {s : Session} {c : Call} {e : ParseError} (h : Over text s)
    (he : (s.call c).1 = .error e) : e.position.TrueIn text := by
  obtain ⟨rfl, hkept, l, hvisits, htokens⟩ := h.tokens
  have hlocated : Located s.source l.tokens := Lexer.take_located hvisits.stands
  rw [htokens] at hlocated
  exact (s.steps c).trueIn hkept hlocated he

end

namespace SortOrder

variable {text : List Char}

theorem wordsFrom_located {fuel : Nat} {p : Position} {rest : List Char}
    (h : Stands text p rest) : Located text (wordsFrom fuel p rest) := by
  induction fuel, p, rest using wordsFrom.induct with
  | case1 => exact .nil text
  | case2 => exact .nil text
  | case3 fuel p c cs hlayout ih =>
    have hbehind : Stands text (p.after [c]) cs := h.after
    simp only [wordsFrom, hlayout, if_true]
    exact ih hbehind
  | case4 fuel p cs hlayout ih =>
    have hbehind : Stands text (p.after [',']) cs := h.after
    simp only [wordsFrom, hlayout, if_true, Bool.false_eq_true, if_false]
    exact (ih hbehind).cons h.trueIn
  | case5 fuel p c cs hlayout hcomma hname word ih =>
    simp only [wordsFrom, hlayout, hcomma, hname, if_true, Bool.false_eq_true, if_false]
    have hsplit : c :: cs = word ++ cs.dropWhile continuesName := by simp [word]
    have ht := h.trueIn
    rw [hsplit] at h
    exact (ih h.after).cons ht
  | case6 fuel p c cs hlayout hcomma hname =>
    simp only [wordsFrom, hlayout, hcomma, hname, Bool.false_eq_true, if_false]
    exact h.trueIn

theorem takeDirection_suffix {tokens rest : List Token} {d : Direction}
    (h : takeDirection tokens = (d, rest)) : rest <:+ tokens := by
  obtain rfl : (takeDirection tokens).2 = rest := congrArg Prod.snd h
  unfold takeDirection
  split
  next => exact List.suffix_refl _
  next t rest =>
    split
    next => exact List.suffix_cons t rest
    next => exact List.suffix_refl _

theorem takeTerms_stops {fuel : Nat} {tokens : List Token} {s : Stop}
    (h : takeTerms fuel tokens = .error s) : s.In 0 tokens := by
  induction fuel, tokens using takeTerms.induct with
  | case1 rest => exact Reader.in_of_expected h (List.suffix_refl _)
  | case2 => exact Reader.in_of_expected h (List.suffix_refl _)
  | case3 fuel t rest hproperty =>
    simp only [takeTerms, hproperty, if_true] at h
    exact Reader.in_of_expected h (List.suffix_refl _)
  | case4 fuel t rest hproperty direction hdirection =>
    simp only [takeTerms, hproperty, hdirection, if_false] at h
    cases h
  | case5 fuel t rest hproperty direction u behind hcomma hdirection ih =>
    have hbehind := (takeDirection_suffix hdirection).trans (List.suffix_cons t rest)
    simp only [takeTerms, hproperty, hdirection, hcomma, if_false, if_true] at h
    rcases bind_eq_error.mp h with herror | ⟨_, _, hpure⟩
    · exact (ih herror).mono ((List.suffix_cons u behind).trans hbehind)
    · cases hpure
  | case6 fuel t rest hproperty direction u behind hcomma hdirection =>
    have hbehind := (takeDirection_suffix hdirection).trans (List.suffix_cons t rest)
    simp only [takeTerms, hproperty, hdirection, hcomma, if_false] at h
    exact Reader.in_of_expected h hbehind

theorem parse_trueIn {e : ParseError} (h : parse text = .error e) : e.position.TrueIn text := by
  have hlocated : Located text (words text) := wordsFrom_located (.start text)
  unfold parse at h
  split at h
  next f hwords =>
    obtain rfl := Except.error.inj h
    rwa [hwords] at hlocated
  next => cases h
  next tokens _ hwords =>
    split at h
    next => cases h
    next stop hterms =>
      obtain rfl := Except.error.inj h
      have hin := takeTerms_stops hterms
      rw [hwords] at hlocated
      exact Stop.toError_trueIn hlocated hin.rest_suffix hin.number_mem

end SortOrder

/-- What reading a text reports the position of. -/
inductive Reports (text : List Char) : Position → Prop
  /-- A token that a lexer yields. -/
  | token {l : Lexer} {t : Token} : Lexer.Visits text l → l.next.1 = some (.ok t) →
      Reports text t.position
  /-- An error that a lexer yields. -/
  | lexical {l : Lexer} {e : LexError} : Lexer.Visits text l → l.next.1 = some (.error e) →
      Reports text e.position
  /-- An error in place of a session. -/
  | session {l : Lexer} {e : LexError} : Lexer.Visits text l → Session.ofLexer text l = .error e →
      Reports text e.position
  /-- An error of a call, behind any other calls. -/
  | call {s : Session} {c : Session.Call} {e : ParseError} : Session.Over text s →
      (s.call c).1 = .error e → Reports text e.position
  | whole {e : ParseError} : parseWhere text = .error e → Reports text e.position
  | order {e : ParseError} : SortOrder.parse text = .error e → Reports text e.position

theorem ofLexer_trueIn {text : List Char} {l : Lexer} {e : LexError}
    (hl : Stands text l.position l.rest) (h : Session.ofLexer text l = .error e) :
    e.position.TrueIn text := by
  have hlocated : Located text l.tokens := Lexer.take_located hl
  rcases bind_eq_error.mp h with herror | ⟨_, _, hpure⟩
  · rwa [herror] at hlocated
  · cases hpure

theorem parseWhere_trueIn {text : List Char} {e : ParseError} (h : parseWhere text = .error e) :
    e.position.TrueIn text := by
  have hlocated : Located text (tokenize text) := Lexer.take_located (.start text)
  unfold parseWhere at h
  split at h
  next f htokens =>
    obtain rfl := Except.error.inj h
    rwa [htokens] at hlocated
  next tokens htokens =>
    have hcall : ((Session.ofTokens text tokens).call .complete).1 = .error e := h
    exact (Session.over_ofTokens htokens).trueIn hcall

/-- Every position that is reported is the one that is counted from the text, and counting keeps
the order of boundaries. -/
theorem reports_located (text : List Char) : (∀ p, Reports text p → p.TrueIn text) ∧
    ∀ m n, Boundary text m → Boundary text n → m < n →
      (Position.locate text m).Precedes (Position.locate text n) := by
  refine ⟨fun p hp => ?_, fun m n => Position.locate_precedes⟩
  cases hp with
  | token hl ht => exact Lexer.token_trueIn hl.stands ht
  | lexical hl he => exact Lexer.error_trueIn hl.stands he
  | session hl he => exact ofLexer_trueIn hl.stands he
  | call hs he => exact hs.trueIn he
  | whole he => exact parseWhere_trueIn he
  | order he => exact SortOrder.parse_trueIn he

theorem reports_located_line :
    let text := "Ä='x\ny'?".toList
    let e : LexError := .unexpectedCharacter '?' ⟨8, 2, 3⟩
    Session.ofLexer text (.ofText text) = .error e ∧ e.position.TrueIn text ∧
      (Position.locate text 2).Precedes (Position.locate text 8) := by
  intro text e
  have he : Session.ofLexer text (.ofText text) = .error e := by rfl
  have hname : Boundary text 2 := ⟨['Ä'], "='x\ny'?".toList, by rfl, by rfl⟩
  have hmark : Boundary text 8 := ⟨"Ä='x\ny'".toList, ['?'], by rfl, by rfl⟩
  obtain ⟨htrue, horder⟩ := reports_located text
  exact ⟨he, htrue e.position (.session .start he), horder 2 8 hname hmark (by decide)⟩

end RowFilter
