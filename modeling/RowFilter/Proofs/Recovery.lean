import RowFilter.Proofs.Rooms
import RowFilter.Proofs.Sessions
import RowFilter.Proofs.Tiling

namespace RowFilter

open Grammar

/-- A new session over the tokens that are left. -/
def Session.fresh (s : Session) : Session :=
  ofTokens s.source s.rest

/-- What a call makes of what was read. -/
def Session.answer (source : List Char) (tokens : List Token) :
    Call → Reader.Outcome → Except ParseError Expr
  | _, .error stop => .error (stop.toError source tokens)
  | .expression, .ok (e, _) => .ok e
  | .complete, .ok (e, rest) =>
    if rest.isEmpty then .ok e
    else .error (Stop.toError source tokens ⟨.expected .endOfInput, rest, 0⟩)

theorem Session.call_answer (s : Session) (c : Call) :
    (s.call c).1 = answer s.source s.tokens c (Reader.expression maxDepth s.room s.rest) ∧
      (s.call c).2.rest = Reader.left (Reader.expression maxDepth s.room s.rest) := by
  cases hread : Reader.expression maxDepth s.room s.rest with
  | error stop => cases c <;> simp [call, complete, expression, hread, answer, Reader.left]
  | ok result =>
    cases c with
    | expression => simp [call, expression, hread, answer, Reader.left]
    | complete =>
      simp only [call, complete, expression, hread, answer, Reader.left]
      split <;> simp

section

variable {source : List Char} {tokens all : List Token} {room : Nat}

theorem exists_last {read : List Token} (h : read ≠ []) : ∃ front t, read = front ++ [t] :=
  ⟨_, _, (List.dropLast_concat_getLast h).symm⟩

/-- The last token before the others is the same in any tokens that end with these. -/
theorem Stop.lastPosition_append (source : List Char) (front rest : List Token) (t : Token) :
    lastPosition source (front ++ t :: rest) rest = t.position := by
  have hindex : (front ++ t :: rest).length - rest.length - 1 = front.length := by
    simp only [List.length_append, List.length_cons]
    omega
  unfold lastPosition
  rw [hindex, List.getElem?_append_right (Nat.le_refl _)]
  simp

/-- A stop behind the first of some tokens is the same error in them and in a longer text. -/
theorem Stop.toError_suffix {stop : Stop} (hall : tokens <:+ all) (hrest : stop.rest <:+ tokens)
    (hpassed : stop.reason = .tooDeep → stop.rest.length < tokens.length) :
    stop.toError source all = stop.toError source tokens := by
  obtain ⟨reason, rest, opened⟩ := stop
  cases reason with
  | expected e => rfl
  | invalidNumber t => rfl
  | tooDeep =>
    obtain ⟨before, rfl⟩ := hall
    obtain ⟨read, rfl⟩ := hrest
    have hne : read ≠ [] := by
      rintro rfl
      have hlt := hpassed rfl
      simp at hlt
    obtain ⟨front, t, rfl⟩ := exists_last hne
    have hshort := lastPosition_append source front rest t
    have hlong := lastPosition_append source (before ++ front) rest t
    simp only [List.append_assoc, List.singleton_append] at hshort hlong ⊢
    simp only [toError, hshort, hlong]

theorem Session.answer_suffix {c : Call} {outcome : Reader.Outcome} (hall : tokens <:+ all)
    (hstop : ∀ stop, outcome = .error stop → stop.In room tokens) :
    answer source all c outcome = answer source tokens c outcome := by
  cases outcome with
  | error stop =>
    have hin := hstop stop rfl
    simp only [answer, Stop.toError_suffix hall hin.rest_suffix hin.passed]
  | ok result => cases c <;> rfl

/-- The tokens of a text stand one behind another. -/
def Ordered (tokens : List Token) : Prop :=
  tokens.Pairwise fun t u => t.position.offset < u.position.offset

theorem Lexer.tokens_ordered {l : Lexer} (h : l.tokens = .ok tokens) : Ordered tokens := by
  cases hfailed : l.failed with
  | true =>
    have hnone : ∀ n, l.take n = .ok [] := by
      intro n
      cases n <;> simp [take, next, hfailed]
    rw [Lexer.tokens, hnone] at h
    obtain rfl := Except.ok.inj h
    exact .nil
  | false =>
    obtain ⟨ts, m, hgives, ⟨_, hts⟩ | ⟨e, _, he⟩⟩ := exists_gives hfailed (Nat.le_refl _)
    · obtain rfl := Except.ok.inj (h.symm.trans hts)
      obtain ⟨_, _, _, htiling⟩ := hgives.tiling hfailed
      have hordered := (htiling [] m.rest (by simp) rfl).ordered
      exact hordered.imp And.left
    · cases h.symm.trans he

theorem Stop.toError_eq_tooDeep {stop : Stop} {p : Position}
    (h : stop.toError source tokens = .tooDeep p) :
    stop.reason = .tooDeep ∧ p = lastPosition source tokens stop.rest := by
  obtain ⟨reason, rest, opened⟩ := stop
  cases reason with
  | expected e => cases rest <;> cases h
  | invalidNumber t => cases h
  | tooDeep => exact ⟨rfl, (ParseError.tooDeep.inj h).symm⟩

theorem Session.answer_eq_tooDeep {c : Call} {outcome : Reader.Outcome} {p : Position}
    (h : answer source tokens c outcome = .error (.tooDeep p)) : ∃ stop,
      outcome = .error stop ∧ stop.reason = .tooDeep ∧
        p = Stop.lastPosition source tokens stop.rest := by
  cases outcome with
  | error stop =>
    have hstop : stop.toError source tokens = .tooDeep p := by cases c <;> exact Except.error.inj h
    exact ⟨stop, rfl, Stop.toError_eq_tooDeep hstop⟩
  | ok result =>
    cases c with
    | expression => cases h
    | complete =>
      simp only [answer] at h
      split at h
      next => cases h
      next => cases (Stop.toError_eq_tooDeep (Except.error.inj h)).1

/-- A refused parenthesis shows in the answer: the wider reader gives a tree, another reason or a
later position. -/
theorem Session.answer_refused {c : Call} {wide : Reader.Outcome} {read more : List Token}
    (hordered : Ordered tokens) (htokens : tokens = read ++ (more ++ Reader.left wide))
    (hread : read ≠ []) (hmore : ∀ s, wide = .error s → s.reason = .tooDeep → more ≠ []) :
    answer source tokens c (.error ⟨.tooDeep, more ++ Reader.left wide, room⟩) ≠
      answer source tokens c wide := by
  obtain ⟨front, t, rfl⟩ := exists_last hread
  have hnarrow : answer source tokens c (.error ⟨.tooDeep, more ++ Reader.left wide, room⟩) =
      .error (.tooDeep t.position) := by
    have hlast := Stop.lastPosition_append source front (more ++ Reader.left wide) t
    cases c <;> simp [answer, Stop.toError, htokens, hlast]
  rw [hnarrow]
  intro hsame
  obtain ⟨stop, rfl, hdeep, hposition⟩ := answer_eq_tooDeep hsame.symm
  -- The wider reader is too deep behind a later token, so at another position.
  obtain ⟨middle, u, rfl⟩ := exists_last (hmore stop rfl hdeep)
  have hlast := Stop.lastPosition_append source (front ++ t :: middle) stop.rest u
  have hall : tokens = (front ++ t :: middle) ++ u :: stop.rest := by
    rw [htokens]
    simp [Reader.left]
  rw [hall, hlast] at hposition
  have hbefore : t.position.offset < u.position.offset := by
    rw [hall] at hordered
    exact (List.pairwise_append.mp hordered).2.2 t (by simp) u (by simp)
  rw [hposition] at hbefore
  omega

/-- Less room shows in the answer exactly if the parentheses do not fit in it. -/
theorem Session.answer_eq_iff {c : Call} {narrow wide : Reader.Outcome} (hordered : Ordered tokens)
    (h : Reader.Narrows room tokens narrow wide) : ∃ read, tokens = read ++ Reader.left wide ∧
      (answer source tokens c narrow = answer source tokens c wide ↔ Nested room read) := by
  cases h with
  | same read hread hnested hsame => exact ⟨read, hread, by simp [hsame, hnested]⟩
  | refused read more hread hdeep hnarrow hmore =>
    have hne : read ≠ [] := by
      rintro rfl
      rw [depth_nil] at hdeep
      omega
    have hfits : ¬ Nested room (read ++ more) := by
      intro hnested
      have hle := hnested read (List.prefix_append read more)
      omega
    refine ⟨read ++ more, by rw [List.append_assoc]; exact hread, ?_⟩
    rw [hnarrow]
    exact iff_of_false (answer_refused hordered hread hne hmore) hfits

end

/-- A call answers as a new session over the tokens that are left would, exactly if no error has
left a parenthesis open or the parentheses that the new session reads fit in the room. -/
theorem Session.call_eq_fresh_iff {text : List Char} {s : Session} (h : Over text s) (c : Call) :
    ∃ read, s.rest = read ++ (s.fresh.call c).2.rest ∧
      ((s.call c).1 = (s.fresh.call c).1 ↔ s.room = maxDepth ∨ Nested s.room read) := by
  obtain ⟨_, hkept, l, _, htokens⟩ := h.tokens
  have hlimit : 0 < maxDepth := by decide
  have hordered : Ordered s.rest :=
    (Lexer.tokens_ordered htokens).sublist hkept.rest_suffix.sublist
  obtain ⟨hcall, _⟩ := s.call_answer c
  obtain ⟨hfresh, hleft⟩ := s.fresh.call_answer c
  have hstops : ∀ room stop, Reader.expression maxDepth room s.rest = .error stop →
      stop.In room s.rest := fun _ => Reader.expression_stops hlimit s.rest
  rw [hcall, hfresh, hleft, answer_suffix hkept.rest_suffix (hstops s.room)]
  show ∃ read, s.rest = read ++ Reader.left (Reader.expression maxDepth maxDepth s.rest) ∧
    (answer s.source s.rest c (Reader.expression maxDepth s.room s.rest) =
      answer s.source s.rest c (Reader.expression maxDepth maxDepth s.rest) ↔
        s.room = maxDepth ∨ Nested s.room read)
  by_cases hroom : s.room = maxDepth
  · obtain ⟨read, hread⟩ := Reader.left_suffix_of_stops (Reader.expression_sound hlimit)
      (Reader.expression_stops hlimit) s.rest
    exact ⟨read, hread.symm, by simp [hroom]⟩
  · have hless : s.room < maxDepth := Nat.lt_of_le_of_ne hkept.room_le hroom
    obtain ⟨read, hread, hiff⟩ :=
      answer_eq_iff (c := c) hordered (Reader.expression_narrower hlimit hless s.rest)
    exact ⟨read, hread, by rw [hiff]; simp [hroom]⟩

theorem Session.call_eq_fresh_iff_array :
    let text := "([1 A".toList
    ∃ s, Over text s ∧ s.room + 1 = maxDepth ∧ (s.call .expression).1 = .ok (.property "A") ∧
      ∃ read, s.rest = read ++ (s.fresh.call .expression).2.rest ∧
        ((s.call .expression).1 = (s.fresh.call .expression).1 ↔
          s.room = maxDepth ∨ Nested s.room read) := by
  intro text
  obtain ⟨tokens, htokens⟩ : ∃ tokens, tokenize text = .ok tokens := ⟨_, by rfl⟩
  have hover : Over text ((ofTokens text tokens).call .expression).2 :=
    .call .expression (over_ofTokens htokens)
  obtain rfl : _ = tokens := Except.ok.inj htokens
  exact ⟨_, hover, by rfl, by rfl, call_eq_fresh_iff hover .expression⟩

/-- Open parentheses in a row. -/
def openParens : Position → Nat → List Token
  | _, 0 => []
  | p, n + 1 => ⟨.mark .openParen, ['('], p⟩ :: openParens (p.next '(') n

theorem lexed_openParens {p : Position} {n : Nat} {text : List Char} {ts : List Token}
    (h : Lexed (p.after (List.replicate n '(')) text ts) :
    Lexed p (List.replicate n '(' ++ text) (openParens p n ++ ts) := by
  induction n generalizing p with
  | zero => exact h
  | succ n ih =>
    let t : Token := ⟨.mark .openParen, ['('], p⟩
    have hends : ∀ y ∈ (List.replicate n '(' ++ text).head?, Ends t.kind y :=
      fun y _ => ends_mark_iff.mpr ⟨by simp, by simp⟩
    have hrest : Lexed (t.position.after t.text) (List.replicate n '(' ++ text)
        (openParens (p.next '(') n ++ ts) := ih h
    have hwhole : Lexed p ([] ++ (t.text ++ (List.replicate n '(' ++ text)))
        (t :: (openParens (p.next '(') n ++ ts)) :=
      .token (by simp) rfl (.mark .openParen) hends hrest
    exact hwhole

/-- The reader stops behind the first parenthesis that there is no room for. -/
theorem Reader.expression_openParens (limit room : Nat) (p : Position) (rest : List Token) :
    expression limit room (openParens p (room + 1) ++ rest) = .error ⟨.tooDeep, rest, room⟩ := by
  induction room generalizing p with
  | zero => rfl
  | succ room ih =>
    have hfactor : factor (some (expression limit room)) (openParens p (room + 2) ++ rest) =
        .error ⟨.tooDeep, rest, room + 1⟩ := by
      have hinside : closing (expression limit room (openParens (p.next '(') (room + 1) ++ rest)) =
          .error ⟨.tooDeep, rest, room + 1⟩ := by
        rw [ih]
        rfl
      rw [factor_eq]
      exact hinside
    have hnegation : negation limit (some (expression limit room))
        (openParens p (room + 2) ++ rest) = .error ⟨.tooDeep, rest, room + 1⟩ := by
      rw [negation_eq, taking_other (by simp [openParens]), hfactor]
    have hoperand : operand limit (some (expression limit room)) _ = _ :=
      bind_eq_error.mpr (.inl hnegation)
    have hcomparison : comparison limit (some (expression limit room)) _ = _ :=
      bind_eq_error.mpr (.inl hoperand)
    exact bind_eq_error.mpr (.inl hcomparison)

theorem after_openParens (p : Position) (n : Nat) :
    p.after (List.replicate n '(') = ⟨p.offset + n, p.line, p.column + n⟩ := by
  induction n generalizing p with
  | zero => rfl
  | succ n ih =>
    have hnext : p.next '(' = ⟨p.offset + 1, p.line, p.column + 1⟩ := by rfl
    rw [List.replicate_succ, Position.after_cons, ih, hnext]
    simp only [Position.mk.injEq, true_and]
    constructor <;> omega

/-- A call is refused for parentheses that an earlier call left open, where a new session reads a
tree. -/
theorem Session.refused_behind_openParens :
    let text := List.replicate 257 '(' ++ "(A)".toList
    ∃ s, Over text s ∧ (s.call .expression).1 = .error (.tooDeep ⟨257, 1, 258⟩) ∧
      (s.fresh.call .expression).1 = .ok (.property "A") := by
  intro text
  let opening : Token := ⟨.mark .openParen, ['('], ⟨257, 1, 258⟩⟩
  let inside : List Token :=
    [⟨.identifier, ['A'], ⟨258, 1, 259⟩⟩, ⟨.mark .closeParen, [')'], ⟨259, 1, 260⟩⟩]
  let tokens := openParens .start 257 ++ opening :: inside
  let s : Session := ⟨text, tokens, opening :: inside, 0⟩
  have hlexed : Lexed ⟨257, 1, 258⟩ "(A)".toList (opening :: inside) :=
    (Lexer.take_eq_ok (Nat.le_refl 3)).mp (by rfl)
  have htokens : tokenize text = .ok tokens := by
    refine tokenize_eq_ok.mpr (lexed_openParens ?_)
    rw [after_openParens]
    exact hlexed
  have hfirst : ((ofTokens text tokens).call .expression).2 = s := by
    have hread : Reader.expression maxDepth maxDepth tokens = _ :=
      Reader.expression_openParens maxDepth 256 .start (opening :: inside)
    simp only [call, expression, ofTokens, hread]
    rfl
  have hsecond : (s.call .expression).1 = .error (.tooDeep ⟨257, 1, 258⟩) := by
    have hread : Reader.expression maxDepth 0 (opening :: inside) = .error ⟨.tooDeep, inside, 0⟩ :=
      Reader.expression_openParens maxDepth 0 ⟨257, 1, 258⟩ inside
    have hlast : Stop.lastPosition text tokens inside = ⟨257, 1, 258⟩ :=
      Stop.lastPosition_append text _ inside opening
    simp [call, expression, s, hread, Stop.toError, hlast]
  refine ⟨s, ?_, hsecond, by rfl⟩
  rw [← hfirst]
  exact .call .expression (over_ofTokens htokens)

end RowFilter
