import RowFilter.Proofs.Accepted
import RowFilter.Proofs.Prefixes
import RowFilter.Proofs.Rooms

namespace RowFilter.Reader

open Grammar

/-- Tokens of which the first ones are of the same kind. Behind `not` a reader looks one token
further, so there all of them are the same. -/
inductive SameStart : List Token → List Token → Prop
  | refl (us : List Token) : SameStart us us
  | token {t u : Token} (us vs : List Token) : u.kind = t.kind → t.kind ≠ .keyword .not →
      SameStart (t :: us) (u :: vs)

/-- The outcome for tokens with `us` behind them, beside that of another reader for the same tokens
with `vs` behind them. The two go together while nothing of `us` is taken, until the first reader
refuses what it has found. -/
inductive Keeps {α : Type} (us vs ts : List Token) (a b : Except Stop (α × List Token)) : Prop
  | done (value : α) (read rest : List Token) : ts = read ++ rest → a = .ok (value, rest ++ us) →
      b = .ok (value, rest ++ vs) → Keeps us vs ts a b
  | missing (x : Expected) (opened : Nat) (read rest : List Token) : ts = read ++ rest →
      a = .error ⟨.expected x, rest ++ us, opened⟩ →
      b = .error ⟨.expected x, rest ++ vs, opened⟩ → Keeps us vs ts a b
  | refused (s : Stop) : a = .error s → (∀ x, s.reason ≠ .expected x) → Keeps us vs ts a b
  | beyond : (left a).length < us.length → Keeps us vs ts a b

/-- A reader beside one with wider bounds. -/
def Widens {α : Type} (r q : List Token → Except Stop (α × List Token)) : Prop :=
  ∀ us vs ts, SameStart us vs → Keeps us vs ts (r (ts ++ us)) (q (ts ++ vs))

variable {us vs ts : List Token}

theorem SameStart.cases (h : SameStart us vs) : (us = [] ∧ vs = []) ∨
    ∃ t u us' vs', us = t :: us' ∧ vs = u :: vs' ∧ u.kind = t.kind := by
  cases h with
  | refl =>
    cases us with
    | nil => exact .inl ⟨rfl, rfl⟩
    | cons t us => exact .inr ⟨t, t, us, us, rfl, rfl, rfl⟩
  | token us vs hkind _ => exact .inr ⟨_, _, us, vs, rfl, rfl, hkind⟩

theorem SameStart.head_ne {kind : TokenKind} (h : SameStart us vs)
    (hus : ∀ t ∈ us.head?, t.kind ≠ kind) : ∀ u ∈ vs.head?, u.kind ≠ kind := by
  rcases h.cases with ⟨_, rfl⟩ | ⟨t, u, _, _, rfl, rfl, hkind⟩
  · simp
  · simpa [hkind] using hus

section

variable {α β : Type} {a b : Except Stop (α × List Token)}
  {r q : List Token → Except Stop (α × List Token)}
  {f g : α × List Token → Except Stop (β × List Token)}

theorem Keeps.prepend (h : Keeps us vs ts a b) (front : List Token) :
    Keeps us vs (front ++ ts) a b := by
  cases h with
  | done value read rest hts ha hb =>
    exact .done value (front ++ read) rest (by rw [hts, List.append_assoc]) ha hb
  | missing x opened read rest hts ha hb =>
    exact .missing x opened (front ++ read) rest (by rw [hts, List.append_assoc]) ha hb
  | refused s ha hs => exact .refused s ha hs
  | beyond hlt => exact .beyond hlt

/-- Behind the first token of `us` there is nothing left to compare. -/
theorem Widens.passed (h : Widens r q) {behind : List Token} (hlt : behind.length < us.length)
    (b : Except Stop (α × List Token)) : Keeps us vs ts (r behind) b := by
  have hleft : left (r behind) = behind → Keeps us vs ts (r behind) b := by
    intro heq
    exact .beyond (by rwa [heq])
  cases h behind behind [] (.refl behind) with
  | done value read rest hts ha _ =>
    obtain ⟨rfl, rfl⟩ := List.append_eq_nil_iff.mp hts.symm
    exact hleft (congrArg left ha)
  | missing x opened read rest hts ha _ =>
    obtain ⟨rfl, rfl⟩ := List.append_eq_nil_iff.mp hts.symm
    exact hleft (congrArg left ha)
  | refused s ha hs => exact .refused s ha hs
  | beyond hless => exact .beyond (Nat.lt_trans hless hlt)

/-- A second step goes on behind the first one. -/
theorem Keeps.bind (h : Keeps us vs ts a b) (hstart : SameStart us vs)
    (hstep : ∀ value, Widens (fun tokens => f (value, tokens)) fun tokens => g (value, tokens)) :
    Keeps us vs ts (a >>= f) (b >>= g) := by
  cases h with
  | done value read rest hts ha hb =>
    rw [hts, ha, hb]
    exact (hstep value us vs rest hstart).prepend read
  | missing x opened read rest hts ha hb =>
    rw [ha, hb]
    exact .missing x opened read rest hts rfl rfl
  | refused s ha hs =>
    rw [ha]
    exact .refused s rfl hs
  | beyond hlt =>
    cases a with
    | error s => exact .beyond hlt
    | ok result =>
      obtain ⟨value, behind⟩ := result
      exact (hstep value).passed hlt _

theorem done_widens (value : α) :
    Widens (fun tokens => .ok (value, tokens)) fun tokens => .ok (value, tokens) :=
  fun _ _ ts _ => .done value [] ts rfl rfl rfl

/-- Making another value of what was read takes no further token. -/
theorem Keeps.map (h : Keeps us vs ts a b) (hstart : SameStart us vs) (f : α → β) :
    Keeps us vs ts (do let (x, rest) ← a; return (f x, rest))
      (do let (x, rest) ← b; return (f x, rest)) :=
  h.bind hstart fun x => done_widens (f x)

theorem missing_widens (x : Expected) :
    Widens (stop (.expected x) : List Token → Except Stop (α × List Token)) (stop (.expected x)) :=
  fun _ _ ts _ => .missing x 0 [] ts rfl rfl rfl

/-- Whoever refuses is no standard for others. -/
theorem refused_widens {reason : Reason} (h : ∀ x, reason ≠ .expected x) :
    Widens (stop reason) q :=
  fun _ _ _ _ => .refused _ rfl h

end

theorem left_elements_le (tokens : List Token) :
    (left (elements tokens)).length ≤ tokens.length := by
  obtain ⟨read, hread, _⟩ := (elements_skips tokens).read
  have hlength := congrArg List.length hread
  rw [List.length_append] at hlength
  omega

/-- What follows a literal in an array. -/
def behindLiteral (c : Literal) : List Token → Except Stop (List Literal × List Token)
  | [] => stop (.expected .commaOrBracket) []
  | u :: rest =>
    if u.kind = .mark .comma then do
      let (cs, rest) ← elements rest
      return (c :: cs, rest)
    else if u.kind = .mark .closeBracket then .ok ([c], rest)
    else stop (.expected .commaOrBracket) (u :: rest)

theorem elements_literal {t : Token} {c : Literal} (h : literal? t = some (some c))
    (rest : List Token) : elements (t :: rest) = behindLiteral c rest := by
  simp only [elements, h]
  cases rest <;> rfl

theorem left_behindLiteral_le (c : Literal) (tokens : List Token) :
    (left (behindLiteral c tokens)).length ≤ tokens.length := by
  cases tokens with
  | nil => exact Nat.le_refl 0
  | cons u rest =>
    by_cases hcomma : u.kind = .mark .comma
    · simp only [behindLiteral, hcomma, if_true, left_map]
      exact Nat.le_succ_of_le (left_elements_le rest)
    · by_cases hclose : u.kind = .mark .closeBracket
      · simp [behindLiteral, hclose, left]
      · simp [behindLiteral, hcomma, hclose, stop, left]

theorem behindLiteral_start (c : Literal) (h : SameStart us vs) :
    Keeps us vs [] (behindLiteral c us) (behindLiteral c vs) := by
  rcases h.cases with ⟨rfl, rfl⟩ | ⟨u, v, us, vs, rfl, rfl, hkind⟩
  · exact .missing .commaOrBracket 0 [] [] rfl rfl rfl
  · by_cases hcomma : u.kind = .mark .comma
    · refine .beyond ?_
      simp only [behindLiteral, hcomma, if_true, left_map]
      exact Nat.lt_succ_of_le (left_elements_le us)
    · by_cases hclose : u.kind = .mark .closeBracket
      · refine .beyond ?_
        simp [behindLiteral, hclose, left]
      · have hmissing : ∀ w : Token, w.kind = u.kind → ∀ rest, behindLiteral c (w :: rest) =
            stop (.expected .commaOrBracket) (w :: rest) := by
          intro w hw rest
          simp only [behindLiteral, hw, hcomma, hclose, if_false]
        exact .missing .commaOrBracket 0 [] [] rfl (hmissing u rfl us) (hmissing v hkind vs)

theorem literal?_eq_none_of_kind {t u : Token} (hkind : u.kind = t.kind) (h : literal? t = none) :
    literal? u = none := by
  unfold literal? at *
  rw [hkind]
  split <;> simp_all

theorem elements_start (h : SameStart us vs) : Keeps us vs [] (elements us) (elements vs) := by
  rcases h.cases with ⟨rfl, rfl⟩ | ⟨t, u, us, vs, rfl, rfl, hkind⟩
  · exact .missing .literal 0 [] [] rfl rfl rfl
  · cases hl : literal? t with
    | none =>
      have hmissing : ∀ w : Token, w.kind = t.kind → ∀ rest,
          elements (w :: rest) = stop (.expected .literal) (w :: rest) := by
        intro w hw rest
        simp only [elements, literal?_eq_none_of_kind hw hl]
      exact .missing .literal 0 [] [] rfl (hmissing t rfl us) (hmissing u hkind vs)
    | some l =>
      cases l with
      | none =>
        have hrefused : elements (t :: us) = stop (.invalidNumber t) us := by
          simp only [elements, hl]
        exact .refused _ hrefused (by simp)
      | some c =>
        refine .beyond ?_
        rw [elements_literal hl]
        exact Nat.lt_succ_of_le (left_behindLiteral_le c us)

theorem elements_widens : Widens elements elements := by
  intro us vs ts hstart
  induction ts using elements.induct with
  | case1 => exact elements_start hstart
  | case2 t rest hl =>
    simp only [List.cons_append, elements, hl]
    exact .missing .literal 0 [] (t :: rest) rfl rfl rfl
  | case3 t rest hl =>
    simp only [List.cons_append, elements, hl]
    exact .refused _ rfl (by simp)
  | case4 t c hl =>
    simp only [List.cons_append, List.nil_append, elements_literal hl]
    exact (behindLiteral_start c hstart).prepend [t]
  | case5 t c hl u rest hu ih =>
    simp only [List.cons_append, elements, hl, hu, if_true]
    exact (ih.map hstart (c :: ·)).prepend [t, u]
  | case6 t c hl u rest hcomma hu =>
    simp only [List.cons_append, elements, hl, hu, if_true]
    exact .done [c] [t, u] rest rfl (by simp) (by simp)
  | case7 t c hl u rest hcomma hclose =>
    simp only [List.cons_append, elements, hl, hcomma, hclose, if_false]
    exact .missing .commaOrBracket 0 [t] (u :: rest) rfl rfl rfl

/-- What an item does with its first token: it stops in front of all tokens of its kind, or goes on
behind it. -/
theorem item_head (t : Token) :
    (∀ u : Token, u.kind = t.kind → ∀ rest,
      item (u :: rest) = stop (.expected .expression) (u :: rest)) ∨
        ∃ r : Reader, Widens r r ∧ ∀ rest, item (t :: rest) = r rest := by
  by_cases hname : t.kind = .identifier
  · exact .inr ⟨_, done_widens (.property (.ofList t.text)), fun _ => by simp [item, hname]⟩
  · by_cases hopen : t.kind = .mark .openBracket
    · refine .inr ⟨fun tokens => do let (ls, rest) ← elements tokens; return (.array ls, rest),
        fun us vs ts hstart => (elements_widens us vs ts hstart).map hstart Expr.array, fun _ => ?_⟩
      simp only [item, hopen, reduceCtorEq, if_false, if_true]
    · cases hl : literal? t with
      | none =>
        refine .inl fun u hu _ => ?_
        simp only [item, hu, hname, hopen, literal?_eq_none_of_kind hu hl, if_false]
      | some l =>
        cases l with
        | none =>
          refine .inr ⟨stop (.invalidNumber t), refused_widens (by simp), fun _ => ?_⟩
          simp only [item, hname, hopen, hl, if_false]
        | some c =>
          refine .inr ⟨_, done_widens (.literal c), fun _ => ?_⟩
          simp only [item, hname, hopen, hl, if_false]

theorem item_widens : Widens item item := by
  intro us vs ts hstart
  cases ts with
  | cons t ts =>
    rcases item_head t with hmissing | ⟨r, hr, hitem⟩
    · exact .missing .expression 0 [] (t :: ts) rfl (hmissing t rfl _) (hmissing t rfl _)
    · rw [List.cons_append, List.cons_append, hitem, hitem]
      exact (hr us vs ts hstart).prepend [t]
  | nil =>
    rcases hstart.cases with ⟨rfl, rfl⟩ | ⟨t, u, us, vs, rfl, rfl, hkind⟩
    · exact .missing .expression 0 [] [] rfl rfl rfl
    · rcases item_head t with hmissing | ⟨r, hr, hitem⟩
      · exact .missing .expression 0 [] [] rfl (hmissing t rfl us) (hmissing u hkind vs)
      · simp only [List.nil_append, hitem]
        exact hr.passed (Nat.lt_succ_self _) _

section

variable {limit more height : Nat} {kind : TokenKind} {r q taken other takenWide otherWide : Reader}
  {f g : Expr → Reader} {operator : List Token → Option (BinaryOp × List Token)}

theorem bounded_widens (hmore : limit ≤ more) (h : Widens r q) :
    Widens (bounded limit height r) (bounded more height q) := by
  by_cases hdeep : limit < height
  · have hrefused : bounded limit height r = stop .tooDeep := by
      funext tokens
      exact if_pos hdeep
    rw [hrefused]
    exact refused_widens (by simp)
  · have hnarrow : bounded limit height r = r := by
      funext tokens
      exact if_neg hdeep
    have hwide : bounded more height q = q := by
      funext tokens
      exact if_neg fun hlt => hdeep (Nat.lt_of_le_of_lt hmore hlt)
    rwa [hnarrow, hwide]

theorem taking_widens (htaken : Widens taken takenWide) (hother : Widens other otherWide) :
    Widens (taking kind taken other) (taking kind takenWide otherWide) := by
  intro us vs ts hstart
  cases ts with
  | cons t ts =>
    by_cases ht : t.kind = kind
    · rw [List.cons_append, List.cons_append, taking_head ht, taking_head ht]
      exact (htaken us vs ts hstart).prepend [t]
    · rw [taking_other (by simpa using ht), taking_other (by simpa using ht)]
      exact hother us vs (t :: ts) hstart
  | nil =>
    rw [List.nil_append, List.nil_append]
    rcases head_cases kind us with ⟨t, rest, ht, rfl⟩ | hnone
    · rw [taking_head ht]
      exact htaken.passed (Nat.lt_succ_self _) _
    · rw [taking_other hnone, taking_other (hstart.head_ne hnone)]
      exact hother us vs [] hstart

theorem Widens.andThen (h : Widens r q) (hstep : ∀ e, Widens (f e) (g e)) :
    Widens (r.andThen f) (q.andThen g) :=
  fun us vs ts hstart => (h us vs ts hstart).bind hstart hstep

/-- An outcome with one more parenthesis left open. -/
def leftOpen (w : Outcome) : Outcome :=
  w.mapError fun s => { s with opened := s.opened + 1 }

theorem closing_eq (w : Outcome) : closing w = leftOpen w >>= fun (e, rest) =>
    taking (.mark .closeParen) (ready e) (stop (.expected .closeParen)) rest := by
  cases w <;> rfl

theorem Keeps.leftOpen {a b : Outcome} (h : Keeps us vs ts a b) :
    Keeps us vs ts (leftOpen a) (leftOpen b) := by
  cases h with
  | done e read rest hts ha hb =>
    rw [ha, hb]
    exact .done e read rest hts rfl rfl
  | missing x opened read rest hts ha hb =>
    rw [ha, hb]
    exact .missing x (opened + 1) read rest hts rfl rfl
  | refused s ha hs =>
    rw [ha]
    exact .refused _ rfl hs
  | beyond hlt => cases a <;> exact .beyond hlt

theorem closing_widens (h : Widens r q) :
    Widens (fun tokens => closing (r tokens)) fun tokens => closing (q tokens) := by
  intro us vs ts hstart
  simp only [closing_eq]
  exact (h us vs ts hstart).leftOpen.bind hstart fun e =>
    taking_widens (done_widens e) (missing_widens _)

/-- The operators that are found with `us` and with `vs` behind the same tokens. -/
inductive Decides (us vs ts : List Token) (x y : Option (BinaryOp × List Token)) : Prop
  | none : x = none → y = none → Decides us vs ts x y
  | found (op : BinaryOp) (read rest : List Token) : ts = read ++ rest →
      x = some (op, rest ++ us) → y = some (op, rest ++ vs) → Decides us vs ts x y
  | beyond (op : BinaryOp) (rest : List Token) : x = some (op, rest) →
      rest.length < us.length → Decides us vs ts x y

def LooksAhead (operator : List Token → Option (BinaryOp × List Token)) : Prop :=
  ∀ us vs ts, SameStart us vs → Decides us vs ts (operator (ts ++ us)) (operator (ts ++ vs))

theorem link_widens (hmore : limit ≤ more) (hoperator : LooksAhead operator) (h : Widens r q)
    (hstep : ∀ e, Widens (f e) (g e)) (left : Expr) :
    Widens (link limit operator r f left) (link more operator q g left) := by
  intro us vs ts hstart
  have hlink : ∀ op, Widens
      (r.andThen fun e => bounded limit (Expr.binary op left e).height (f (.binary op left e)))
      (q.andThen fun e => bounded more (Expr.binary op left e).height (g (.binary op left e))) :=
    fun op => h.andThen fun e => bounded_widens hmore (hstep _)
  unfold link
  cases hoperator us vs ts hstart with
  | none hu hv =>
    rw [hu, hv]
    exact done_widens left us vs ts hstart
  | found op read rest hts hu hv =>
    rw [hu, hv, hts]
    exact (hlink op us vs rest hstart).prepend read
  | beyond op rest hu hlt =>
    rw [hu]
    exact (hlink op).passed hlt _

/-- A chain with fewer levels to go is refused where it has none left. -/
theorem chain_widens (hmore : limit ≤ more) (hoperator : LooksAhead operator) (h : Widens r q)
    {levels wide : Nat} (hlevels : levels ≤ wide) (left : Expr) :
    Widens (chain limit operator r levels left) (chain more operator q wide left) := by
  have hrefused : ∀ q : Reader, Widens (stop .tooDeep) q := fun _ => refused_widens (by simp)
  induction levels generalizing wide left with
  | zero =>
    rw [chain_zero]
    cases wide with
    | zero =>
      rw [chain_zero]
      exact link_widens hmore hoperator h (fun _ => hrefused _) left
    | succ wide =>
      rw [chain_succ]
      exact link_widens hmore hoperator h (fun _ => hrefused _) left
  | succ levels ih =>
    obtain ⟨wide, rfl⟩ : ∃ n, wide = n + 1 := ⟨wide - 1, by omega⟩
    rw [chain_succ, chain_succ]
    exact link_widens hmore hoperator h (fun e => ih (Nat.le_of_succ_le_succ hlevels) e) left

end

section

variable {operator : List Token → Option (BinaryOp × List Token)} {t u : Token}

/-- Whether behind some tokens one of the kind of `t` begins no operator, or whether the one that
ends with `t` is found whatever follows. -/
def Settled (operator : List Token → Option (BinaryOp × List Token)) (front : List Token)
    (t : Token) : Prop :=
  (∀ u : Token, u.kind = t.kind → ∀ rest, operator (front ++ u :: rest) = none) ∨
    ∃ op, ∀ rest, operator (front ++ t :: rest) = some (op, rest)

theorem Settled.decides {front : List Token} (h : Settled operator front t)
    (us vs ts : List Token) : Decides us vs (front ++ t :: ts) (operator (front ++ t :: ts ++ us))
      (operator (front ++ t :: ts ++ vs)) := by
  rw [List.append_assoc, List.append_assoc]
  rcases h with hnone | ⟨op, hfound⟩
  · exact .none (hnone t rfl _) (hnone t rfl _)
  · exact .found op (front ++ [t]) ts (by simp) (hfound _) (hfound _)

theorem Settled.decides_start {front : List Token} (h : Settled operator front t)
    (hkind : u.kind = t.kind) (us vs : List Token) : Decides (t :: us) (u :: vs) front
      (operator (front ++ t :: us)) (operator (front ++ u :: vs)) := by
  rcases h with hnone | ⟨op, hfound⟩
  · exact .none (hnone t rfl us) (hnone u hkind vs)
  · exact .beyond op us (hfound us) (Nat.lt_succ_self _)

theorem connective?_settled (t : Token) : Settled connective? [] t := by
  by_cases hand : t.kind = .keyword .and
  · exact .inr ⟨.connective .and, fun _ => by simp [connective?, hand]⟩
  · by_cases hor : t.kind = .keyword .or
    · exact .inr ⟨.connective .or, fun _ => by simp [connective?, hor]⟩
    · exact .inl fun u hu _ => by simp [connective?, hu]

theorem connective?_looksAhead : LooksAhead connective? := by
  intro us vs ts hstart
  cases ts with
  | cons t ts => exact (connective?_settled t).decides us vs ts
  | nil =>
    rcases hstart.cases with ⟨rfl, rfl⟩ | ⟨t, u, us, vs, rfl, rfl, hkind⟩
    · exact .none rfl rfl
    · exact (connective?_settled t).decides_start hkind us vs

theorem test?_settled (ht : t.kind ≠ .keyword .not) : Settled test? [] t := by
  cases hop : testOfKind? t.kind with
  | none => exact .inl fun u hu _ => by simp [test?, hu, ht, hop]
  | some op => exact .inr ⟨op, fun _ => by simp [test?, ht, hop]⟩

theorem test?_settled_not (ht : t.kind = .keyword .not) (u : Token) : Settled test? [t] u := by
  by_cases hlike : u.kind = .keyword .like
  · exact .inr ⟨.like true, fun _ => by simp [test?, ht, hlike]⟩
  · by_cases hamong : u.kind = .keyword .among
    · exact .inr ⟨.among true, fun _ => by simp [test?, ht, hamong]⟩
    · exact .inl fun v hv _ => by simp [test?, ht, hv]

theorem test?_looksAhead : LooksAhead test? := by
  intro us vs ts hstart
  rcases ts with _ | ⟨t, ts⟩
  · cases hstart with
    | token us vs hkind ht => exact (test?_settled ht).decides_start hkind us vs
    | refl =>
      cases hop : test? us with
      | none => exact .none hop hop
      | some found => exact .beyond found.1 found.2 hop (test?_shorter hop).2
  · by_cases ht : t.kind = .keyword .not
    · rcases ts with _ | ⟨u, ts⟩
      · rcases hstart.cases with ⟨rfl, rfl⟩ | ⟨u, v, us, vs, rfl, rfl, hkind⟩
        · exact .none (by simp [test?, ht]) (by simp [test?, ht])
        · exact (test?_settled_not ht u).decides_start hkind us vs
      · exact (test?_settled_not ht u).decides us vs ts
    · exact (test?_settled ht).decides us vs ts

end

section

variable {limit more : Nat} {inner outer : Option Reader}

/-- The reader inside parentheses, beside one with wider bounds. -/
inductive Encloses : Option Reader → Option Reader → Prop
  | closed (outer : Option Reader) : Encloses none outer
  | opened {r q : Reader} : Widens r q → Encloses (some r) (some q)

theorem factor_widens (h : Encloses inner outer) : Widens (factor inner) (factor outer) := by
  rw [factor_eq, factor_eq]
  refine taking_widens ?_ item_widens
  cases h with
  | closed => exact refused_widens (by simp)
  | opened h => exact closing_widens h

theorem negation_widens (hmore : limit ≤ more) (h : Encloses inner outer) :
    Widens (negation limit inner) (negation more outer) := by
  have hfactor := factor_widens h
  rw [negation_eq, negation_eq]
  refine taking_widens (hfactor.andThen fun e => ?_) hfactor
  exact bounded_widens hmore (done_widens _)

theorem nullTest_widens (hmore : limit ≤ more) (e : Expr) :
    Widens (nullTest limit e) (nullTest more e) := by
  rw [nullTest_eq, nullTest_eq]
  refine taking_widens (bounded_widens hmore ?_) (done_widens e)
  refine taking_widens (done_widens _) (taking_widens ?_ (missing_widens _))
  exact taking_widens (done_widens _) (missing_widens _)

theorem operand_widens (hmore : limit ≤ more) (h : Encloses inner outer) :
    Widens (operand limit inner) (operand more outer) := by
  rw [operand_eq, operand_eq]
  exact (negation_widens hmore h).andThen (nullTest_widens hmore)

theorem comparison_widens (hmore : limit ≤ more) (h : Encloses inner outer) :
    Widens (comparison limit inner) (comparison more outer) := by
  have hoperand := operand_widens hmore h
  rw [comparison_eq, comparison_eq]
  exact hoperand.andThen (chain_widens hmore test?_looksAhead hoperand hmore)

theorem expressionWith_widens (hmore : limit ≤ more) (h : Encloses inner outer) :
    Widens (expressionWith limit inner) (expressionWith more outer) := by
  have hcomparison := comparison_widens hmore h
  rw [expressionWith_eq, expressionWith_eq]
  exact hcomparison.andThen (chain_widens hmore connective?_looksAhead hcomparison hmore)

/-- The reader of expressions with wider bounds goes as far as the one with narrower bounds, and
misses the same tokens. -/
theorem expression_widens {room wide : Nat} (hmore : limit ≤ more) (hroom : room ≤ wide) :
    Widens (expression limit room) (expression more wide) := by
  induction room generalizing wide with
  | zero =>
    intro us vs ts hstart
    rw [expression_eq more]
    exact expressionWith_widens hmore (.closed _) us vs ts hstart
  | succ room ih =>
    obtain ⟨n, rfl⟩ : ∃ n, wide = n + 1 := ⟨wide - 1, by omega⟩
    exact expressionWith_widens hmore (.opened (ih (Nat.le_of_succ_le_succ hroom)))

end

end RowFilter.Reader
