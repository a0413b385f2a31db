import RowFilter.Proofs.Counters
import RowFilter.Proofs.Regrouped

namespace RowFilter.Counting

open Grammar Reader

variable {α β : Type} {p q : Parser} {x : Counting α} {f : α → Counting β} {a : α} {fault : Fault}
  {kind : TokenKind} {t : Token} {rest : List Token}

theorem bind_ok (h : x.run p = .ok a q) : (x >>= f).run p = (f a).run q := by
  simp only [EStateM.run] at h
  simp [bind, EStateM.bind, EStateM.run, h]

theorem bind_error (h : x.run p = .error fault q) : (x >>= f).run p = .error fault q := by
  simp only [EStateM.run] at h
  simp [bind, EStateM.bind, EStateM.run, h]

theorem bind_stop {reason : Reason} (h : x.run p = (stop reason : Counting α).run p) :
    (x >>= f).run p = (stop reason : Counting β).run p :=
  bind_error h

theorem bind_get (f : Parser → Counting β) : (get >>= f).run p = (f p).run p := rfl

theorem accept_head (h : p.rest = t :: rest) (ht : t.kind = kind) :
    (accept kind).run p = .ok true { p with rest := rest } := by
  rw [accept, bind_get, h]
  simp only [ht, if_true]
  rfl

theorem accept_other (h : ∀ t ∈ p.rest.head?, t.kind ≠ kind) :
    (accept kind).run p = .ok false p := by
  rw [accept, bind_get]
  cases hrest : p.rest with
  | nil => rfl
  | cons t rest =>
    have ht : t.kind ≠ kind := h t (by simp [hrest])
    simp only [ht, if_false]
    rfl

theorem expect_head {e : Expected} (h : p.rest = t :: rest) (ht : t.kind = kind) :
    (expect kind e).run p = .ok () { p with rest := rest } := by
  rw [expect, bind_ok (accept_head h ht)]
  rfl

theorem expect_other {e : Expected} (h : ∀ t ∈ p.rest.head?, t.kind ≠ kind) :
    (expect kind e).run p = (stop (.expected e) : Counting Unit).run p := by
  rw [expect, bind_ok (accept_other h)]
  rfl

theorem deeper_ok {child : Nat} (h : child < maxDepth) :
    (deeper child).run p = .ok (child + 1) p := by
  rw [deeper, if_neg (Nat.not_le.mpr h)]
  rfl

theorem deeper_error {child : Nat} (h : maxDepth ≤ child) :
    deeper child = stop .tooDeep := by
  rw [deeper, if_pos h]

theorem enter_ok (h : p.nesting < maxDepth) :
    enter.run p = .ok () { p with nesting := p.nesting + 1 } := by
  rw [enter, bind_get, if_neg (Nat.not_le.mpr h)]
  rfl

theorem enter_error (h : maxDepth ≤ p.nesting) :
    enter.run p = (stop .tooDeep : Counting Unit).run p := by
  rw [enter, bind_get, if_pos h]

theorem leave_ok {n : Nat} (h : p.nesting = n + 1) :
    leave.run p = .ok () { p with nesting := n } := by
  rw [leave, bind_get, h]
  rfl

/-- An outcome as it shows in a session with counters: a tree leaves the open parentheses as they
were and its height in the counter, and a stop adds the parentheses that it leaves open. -/
inductive Tracks (p : Parser) : Outcome → EStateM.Result Fault Parser Expr → Prop
  | read {e : Expr} {rest : List Token} :
      Tracks p (.ok (e, rest)) (.ok e { p with rest := rest, height := e.height })
  | stopped {s : Stop} {height nesting : Nat} : nesting = p.nesting + s.opened →
      Tracks p (.error s) (.error (.failed (s.toError p.source p.tokens))
        { p with rest := s.rest, height := height, nesting := nesting })

/-- A reading with counters that does what a reader does while `nesting` parentheses are open. -/
def Follows (nesting : Nat) (r : Reader) (x : Counting Expr) : Prop :=
  ∀ p : Parser, p.nesting = nesting → Tracks p (r p.rest) (x.run p)

variable {o : Outcome} {result : EStateM.Result Fault Parser Expr}

/-- Taking tokens and reading other trees before changes nothing. -/
theorem Tracks.earlier {height : Nat}
    (h : Tracks { p with rest := rest, height := height } o result) : Tracks p o result := by
  cases h with
  | read => exact .read
  | stopped hnesting => exact .stopped hnesting

theorem Tracks.stop (p : Parser) (reason : Reason) :
    Tracks p (Reader.stop reason p.rest) ((Counting.stop reason).run p) :=
  .stopped (Nat.add_zero _).symm

/-- A tree of the height that the counter shows. -/
theorem Tracks.here {e : Expr} (h : p.height = e.height) :
    Tracks p (.ok (e, p.rest)) (.ok e p) := by
  have hread : Tracks p (.ok (e, p.rest)) (.ok e { p with rest := p.rest, height := e.height }) :=
    .read
  rwa [← h] at hread

theorem Tracks.andThen {r : Reader} {f : Expr → Reader} {x : Counting Expr}
    {g : Expr → Counting Expr} (h : Tracks p (r p.rest) (x.run p))
    (hstep : ∀ e rest, r p.rest = .ok (e, rest) →
      Tracks { p with rest := rest, height := e.height } (f e rest)
        ((g e).run { p with rest := rest, height := e.height })) :
    Tracks p (r.andThen f p.rest) ((x >>= g).run p) := by
  unfold Reader.andThen
  generalize r p.rest = o at h hstep
  generalize hresult : x.run p = result at h
  cases h with
  | @read e rest =>
    rw [bind_ok hresult]
    exact (hstep e rest rfl).earlier
  | stopped hnesting =>
    rw [bind_error hresult]
    exact .stopped hnesting

theorem item_follows (nesting : Nat) : Follows nesting Reader.item item := by
  intro p _
  rw [item, bind_get]
  cases hitem : Reader.item p.rest with
  | error s =>
    have hopened : s.opened ≤ 0 := (item_stops hitem).opened_le
    exact .stopped (by omega)
  | ok result =>
    obtain ⟨e, rest⟩ := result
    obtain ⟨ts, _, hts⟩ := item_sound hitem
    have hread : Tracks p (.ok (e, rest)) (.ok e { p with rest := rest, height := e.height }) :=
      .read
    rw [height_of_item hts] at hread
    exact hread

section

variable {r taken other : Reader} {g : Bool → Counting Expr} {k : Unit → Counting Expr} {e : Expr}

theorem accept_tracks
    (htaken : ∀ rest, Tracks { p with rest := rest } (taken rest)
      ((g true).run { p with rest := rest }))
    (hother : Tracks p (other p.rest) ((g false).run p)) :
    Tracks p (taking kind taken other p.rest) ((accept kind >>= g).run p) := by
  rcases head_cases kind p.rest with ⟨t, rest, ht, hrest⟩ | hnone
  · rw [bind_ok (accept_head hrest ht), hrest, taking_head ht]
    exact (htaken rest).earlier
  · rwa [bind_ok (accept_other hnone), taking_other hnone]

theorem expect_tracks {d : Expected}
    (htaken : ∀ rest, Tracks { p with rest := rest } (taken rest)
      ((k ()).run { p with rest := rest })) :
    Tracks p (taking kind taken (Reader.stop (.expected d)) p.rest)
      ((expect kind d >>= k).run p) := by
  rcases head_cases kind p.rest with ⟨t, rest, ht, hrest⟩ | hnone
  · rw [bind_ok (expect_head hrest ht), hrest, taking_head ht]
    exact (htaken rest).earlier
  · rw [bind_stop (expect_other hnone), taking_other hnone]
    exact .stop p _

/-- One level more is too deep for the counter exactly if it is too deep for the tree. -/
theorem deeper_tracks {child : Nat} {f : Nat → Counting Expr}
    (h : child < maxDepth → Tracks p (r p.rest) ((f (child + 1)).run p)) :
    Tracks p (bounded maxDepth (child + 1) r p.rest) ((deeper child >>= f).run p) := by
  unfold bounded
  by_cases hdeep : maxDepth ≤ child
  · rw [deeper_error hdeep, bind_stop rfl, if_pos (Nat.lt_succ_of_le hdeep)]
    exact .stop p _
  · have hle : child < maxDepth := Nat.not_le.mp hdeep
    rw [bind_ok (deeper_ok hle), if_neg (Nat.not_lt.mpr hle)]
    exact h hle

theorem grow_tracks {op : UnaryOp} (hheight : p.height = e.height)
    (h : Tracks { p with height := p.height + 1 } (r p.rest)
      ((k ()).run { p with height := p.height + 1 })) :
    Tracks p (bounded maxDepth (Expr.unary op e).height r p.rest) ((grow >>= k).run p) := by
  have hgrow : (grow >>= k).run p =
      (deeper p.height >>= fun height => setHeight height >>= k).run p := by
    simp only [grow, bind_assoc, bind_get]
  rw [hgrow, Expr.height, ← hheight]
  exact deeper_tracks fun _ => h.earlier

end

/-- The reading inside parentheses, beside the reader there. -/
inductive Inside (nesting : Nat) : Option Reader → Counting Expr → Prop
  | full {x : Counting Expr} : maxDepth ≤ nesting → Inside nesting none x
  | room {r : Reader} {x : Counting Expr} : nesting < maxDepth → Follows (nesting + 1) r x →
      Inside nesting (some r) x

/-- Behind the open parenthesis the counters are back to what they were once the other one is
found. -/
theorem parens_tracks {r : Reader} {x : Counting Expr} (h : Follows (p.nesting + 1) r x) :
    Tracks p (closing (r p.rest)) ((do
      let e ← x
      leave
      expect (.mark .closeParen) .closeParen
      return e : Counting Expr).run { p with nesting := p.nesting + 1 }) := by
  have hinside := h { p with nesting := p.nesting + 1 } rfl
  simp only at hinside
  generalize r p.rest = o at hinside ⊢
  generalize hx : x.run { p with nesting := p.nesting + 1 } = result at hinside
  cases hinside with
  | @stopped s _ m hnesting =>
    have hm : m = p.nesting + 1 + s.opened := hnesting
    rw [bind_error hx]
    exact .stopped (by simp only; omega)
  | @read e rest =>
    rw [bind_ok hx, bind_ok (leave_ok rfl)]
    have hclose : Tracks { p with rest := rest, height := e.height } (closing (.ok (e, rest)))
        ((expect (.mark .closeParen) .closeParen >>= fun _ => pure e).run
          { p with rest := rest, height := e.height }) := expect_tracks fun rest => .here rfl
    exact hclose.earlier

theorem factor_follows {nesting : Nat} {inner : Option Reader} {x : Counting Expr}
    (h : Inside nesting inner x) : Follows nesting (Reader.factor inner) (factor x) := by
  intro p hp
  rw [factor, factor_eq]
  refine accept_tracks (fun rest => ?_) (item_follows nesting p hp)
  cases h with
  | full hfull =>
    simp only [if_true]
    rw [bind_stop (enter_error (hp ▸ hfull))]
    exact .stop _ _
  | room hroom hfollows =>
    simp only [if_true]
    rw [bind_ok (enter_ok (hp ▸ hroom))]
    exact parens_tracks (hp ▸ hfollows)

theorem negation_follows {nesting : Nat} {inner : Option Reader} {x : Counting Expr}
    (h : Inside nesting inner x) : Follows nesting (Reader.negation maxDepth inner) (negation x) := by
  intro p hp
  have hfactor := factor_follows h
  rw [negation, negation_eq]
  refine accept_tracks (fun rest => ?_) (hfactor p hp)
  refine (hfactor { p with rest := rest } hp).andThen fun e behind _ => ?_
  exact grow_tracks rfl (.here rfl)

theorem nullTest_tracks {e : Expr} (hheight : p.height = e.height) :
    Tracks p (Reader.nullTest maxDepth e p.rest) ((nullTest e).run p) := by
  rw [nullTest, nullTest_eq]
  refine accept_tracks (fun rest => ?_) (.here hheight)
  refine grow_tracks hheight ?_
  have hgrown : p.height + 1 = (Expr.unary .isNull e).height := congrArg (· + 1) hheight
  refine accept_tracks (fun rest => .here hgrown) (accept_tracks (fun rest => ?_) (.stop _ _))
  exact expect_tracks fun rest => .here hgrown

theorem operand_follows {nesting : Nat} {inner : Option Reader} {x : Counting Expr}
    (h : Inside nesting inner x) : Follows nesting (Reader.operand maxDepth inner) (operand x) := by
  intro p hp
  rw [operand, operand_eq]
  exact (negation_follows h p hp).andThen fun e rest _ => nullTest_tracks rfl

/-- The height that is kept aside is that of the tree so far, and it leaves enough rounds. -/
theorem chain_tracks (operator : List Token → Option (BinaryOp × List Token)) {r : Reader}
    {x : Counting Expr} (hfollows : Follows p.nesting r x) {levels : Nat} {left : Expr}
    (hheight : left.height ≤ maxDepth) (hlevels : maxDepth < levels + left.height) :
    Tracks p (Reader.chain maxDepth operator r levels left p.rest)
      ((chain operator x levels left left.height).run p) := by
  induction levels generalizing left p with
  | zero =>
    -- Every link adds a level to the left part, which is too deep before the rounds are over.
    omega
  | succ levels ih =>
    rw [chain_succ, chain, bind_get, link]
    cases hop : operator p.rest with
    | none => exact .read
    | some result =>
      obtain ⟨op, rest⟩ := result
      have hright := hfollows { p with rest := rest } rfl
      refine (hright.andThen fun right behind hr => ?_).earlier
      rw [bind_get]
      refine deeper_tracks fun hdeep => ?_
      have hmore : maxDepth < levels + (Expr.binary op left right).height := by
        simp only [Expr.height]
        omega
      have hlimit : (Expr.binary op left right).height ≤ maxDepth := hdeep
      exact ih (p := { p with rest := behind, height := right.height }) hfollows hlimit hmore

/-- Behind its first operand a chain starts with the height of that operand. -/
theorem chain_from_follows {operator : List Token → Option (BinaryOp × List Token)} {r : Reader}
    {x : Counting Expr} {nesting room : Nat} {layer : Layer} (hfollows : Follows nesting r x)
    (hsound : Sound maxDepth room layer r) :
    Follows nesting (r.andThen (Reader.chain maxDepth operator r maxDepth)) (do
      let left ← x
      let p ← get
      chain operator x maxDepth left p.height) := by
  intro p hp
  refine (hfollows p hp).andThen fun left rest hleft => ?_
  obtain ⟨_, _, hwithin⟩ := hsound _ _ _ hleft
  have hpos := left.height_pos
  exact chain_tracks operator (hp ▸ hfollows) hwithin.height_le (by omega)

theorem comparison_follows {nesting room : Nat} {inner : Option Reader} {x : Counting Expr}
    (hsound : SoundInside maxDepth room inner) (h : Inside nesting inner x) :
    Follows nesting (Reader.comparison maxDepth inner) (comparison x) :=
  chain_from_follows (operand_follows h) (operand_sound (by decide) hsound)

theorem expressionWith_follows {nesting room : Nat} {inner : Option Reader} {x : Counting Expr}
    (hsound : SoundInside maxDepth room inner) (h : Inside nesting inner x) :
    Follows nesting (Reader.expressionWith maxDepth inner) (expressionWith x) :=
  chain_from_follows (comparison_follows hsound h) (comparison_sound (by decide) hsound)

/-- Where `nesting` parentheses are open there is room for the others, and the recursion goes no
deeper than they do. -/
theorem expression_follows {nesting room fuel : Nat} (hroom : nesting + room = maxDepth)
    (hfuel : room < fuel) : Follows nesting (Reader.expression maxDepth room) (expression fuel) := by
  induction room generalizing nesting fuel with
  | zero =>
    obtain ⟨n, rfl⟩ : ∃ n, fuel = n + 1 := ⟨fuel - 1, by omega⟩
    exact expressionWith_follows (soundInside_none maxDepth 0) (.full (by omega))
  | succ room ih =>
    obtain ⟨n, rfl⟩ : ∃ n, fuel = n + 1 := ⟨fuel - 1, by omega⟩
    have hsound : SoundInside maxDepth (room + 1) (some (Reader.expression maxDepth room)) :=
      soundInside_some (expression_sound (by decide))
    exact expressionWith_follows hsound (.room (by omega) (ih (by omega) (by omega)))

theorem Tracks.of_ok {e : Expr} (h : Tracks p (.ok (e, rest)) result) :
    result = .ok e { p with rest := rest, height := e.height } := by
  cases h
  rfl

theorem Tracks.of_error {s : Stop} (h : Tracks p (.error s) result) : ∃ height,
    result = .error (.failed (s.toError p.source p.tokens))
      { p with rest := s.rest, height := height, nesting := p.nesting + s.opened } := by
  cases h with
  | stopped hnesting => exact ⟨_, by rw [hnesting]⟩

end RowFilter.Counting

namespace RowFilter.Parser

open Grammar Counting

/-- What a call with counters can do: it reads a tree, it reads a tree that is not the whole text,
or it stops. -/
inductive Step (p : Parser) : Session.Call → EStateM.Result Fault Parser Expr → Prop
  | read {c : Session.Call} {ts rest : List Token} {e : Expr} : p.rest = ts ++ rest →
      Within maxDepth (maxDepth - p.nesting) .expression ts e →
      Step p c (.ok e { p with rest := rest, height := e.height })
  | trailing {ts rest : List Token} {e : Expr} {d : ParseError} : p.rest = ts ++ rest →
      Within maxDepth (maxDepth - p.nesting) .expression ts e →
      Step p .complete (.error (.failed d) { p with rest := rest, height := e.height })
  | stopped {c : Session.Call} {stop : Stop} {height : Nat} {d : ParseError} :
      stop.In (maxDepth - p.nesting) p.rest →
      Step p c (.error (.failed d)
        { p with rest := stop.rest, height := height, nesting := p.nesting + stop.opened })

variable {text : List Char} {p : Parser} {c : Session.Call}

/-- A call with counters is a step, and without the counters it is the call of the session. -/
theorem steps (h : p.nesting ≤ maxDepth) (c : Session.Call) :
    p.Step c (p.call c) ∧ erase (p.call c) = some (p.session.call c) := by
  have hlimit : 0 < maxDepth := by decide
  have hroom : p.nesting + (maxDepth - p.nesting) = maxDepth := by omega
  have htracks : Tracks p (Reader.expression maxDepth (maxDepth - p.nesting) p.rest)
      ((Counting.expression (maxDepth + 1)).run p) := expression_follows hroom (by omega) p rfl
  cases hread : Reader.expression maxDepth (maxDepth - p.nesting) p.rest with
  | error stop =>
    rw [hread] at htracks
    obtain ⟨height, hrun⟩ := htracks.of_error
    have hcall : p.call c = .error (.failed (stop.toError p.source p.tokens)) { p with
        rest := stop.rest, height := height, nesting := p.nesting + stop.opened } := by
      cases c with
      | expression => exact hrun
      | complete => exact bind_error hrun
    have hsession : p.session.call c = (.error (stop.toError p.source p.tokens),
        { p.session with rest := stop.rest, room := maxDepth - p.nesting - stop.opened }) := by
      cases c <;> simp [Session.call, Session.complete, Session.expression, session, hread]
    rw [hcall, hsession]
    refine ⟨.stopped (Reader.expression_stops hlimit _ _ hread), ?_⟩
    simp only [erase, session, Nat.sub_sub]
  | ok result =>
    obtain ⟨e, rest⟩ := result
    obtain ⟨ts, hts, hwithin⟩ := Reader.expression_sound hlimit _ _ _ hread
    rw [hread] at htracks
    have hrun := htracks.of_ok
    cases c with
    | expression =>
      have hcall : p.call .expression = _ := hrun
      rw [hcall]
      refine ⟨.read hts hwithin, ?_⟩
      simp [erase, Session.call, Session.expression, session, hread]
    | complete =>
      have hcall : p.call .complete = EStateM.run _ _ := bind_ok hrun
      rw [hcall, bind_get]
      cases rest with
      | nil =>
        refine ⟨.read hts hwithin, ?_⟩
        simp [erase, Session.call, Session.complete, Session.expression, session, hread]
      | cons t rest =>
        have hsession : p.session.call .complete =
            (.error (Stop.toError p.source p.tokens ⟨.expected .endOfInput, t :: rest, 0⟩),
              { p.session with rest := t :: rest }) := by
          simp [Session.call, Session.complete, Session.expression, session, hread]
        rw [hsession]
        exact ⟨.trailing hts hwithin, rfl⟩

/-- What every call keeps. -/
structure Kept (p : Parser) : Prop where
  rest_suffix : p.rest <:+ p.tokens
  nesting_le : p.nesting ≤ maxDepth

namespace Step

variable {result : EStateM.Result Fault Parser Expr}

theorem tokens_eq (h : p.Step c result) : (behind result).tokens = p.tokens := by
  cases h <;> rfl

theorem rest_suffix (h : p.Step c result) : (behind result).rest <:+ p.rest := by
  cases h with
  | read hts _ => exact ⟨_, hts.symm⟩
  | trailing hts _ => exact ⟨_, hts.symm⟩
  | stopped hin => exact hin.rest_suffix

theorem kept (h : p.Step c result) (hp : p.Kept) : (behind result).Kept where
  rest_suffix := by
    rw [h.tokens_eq]
    exact h.rest_suffix.trans hp.rest_suffix
  nesting_le := by
    cases h with
    | read _ _ => exact hp.nesting_le
    | trailing _ _ => exact hp.nesting_le
    | stopped hin =>
      have hopened := hin.opened_le
      have hle := hp.nesting_le
      simp only [behind]
      omega

end Step

theorem session_of_erase {result : EStateM.Result Fault Parser Expr}
    {answer : Except ParseError Expr × Session} (h : erase result = some answer) :
    (behind result).session = answer.2 := by
  unfold erase at h
  split at h
  next => exact congrArg Prod.snd (Option.some.inj h)
  next => exact congrArg Prod.snd (Option.some.inj h)
  next => cases h

/-- A session with counters is, without them, a session over the same text. -/
theorem Over.kept (h : Over text p) : p.Kept ∧ Session.Over text p.session := by
  induction h with
  | @new l tokens hl htokens =>
    have hnew : Session.ofLexer text l = .ok (ofTokens text tokens).session :=
      bind_eq_ok.mpr ⟨tokens, htokens, rfl⟩
    exact ⟨⟨List.suffix_refl _, Nat.zero_le _⟩, .new hl hnew⟩
  | @call p c _ ih =>
    obtain ⟨hkept, hover⟩ := ih
    obtain ⟨hstep, herase⟩ := p.steps hkept.nesting_le c
    have hsession : (behind (p.call c)).session = (p.session.call c).2 := session_of_erase herase
    refine ⟨hstep.kept hkept, ?_⟩
    rw [hsession]
    exact .call c hover

/-- What a call does to the counters. -/
structure Counts (p : Parser) (c : Session.Call) : Prop where
  /-- Without its counters the call is that of the session, so it ends in no fault of counting. -/
  erased : erase (p.call c) = some (p.session.call c)
  no_underflow : ∀ q, p.call c ≠ .error .underflow q
  tokens_eq : (behind (p.call c)).tokens = p.tokens
  current_le : p.current ≤ (behind (p.call c)).current
  current_bound : (behind (p.call c)).current ≤ p.tokens.length
  rest_eq : (behind (p.call c)).rest = p.tokens.drop (behind (p.call c)).current
  nesting_le : (behind (p.call c)).nesting ≤ maxDepth
  read : ∀ e q, p.call c = .ok e q → q.nesting = p.nesting ∧ p.current < q.current ∧
    q.height = e.height ∧ e.height ≤ maxDepth
  failed : ∀ fault q, p.call c = .error fault q → p.nesting ≤ q.nesting

/-- The counters of a session over any text stay within their bounds whatever is called. A call
that reads a tree leaves the open parentheses as it found them, has taken a token and shows the
height of the tree; one that fails leaves no fewer parentheses open. -/
theorem counts_of_over (h : Over text p) (c : Session.Call) :
    Session.Over text p.session ∧ p.Counts c := by
  obtain ⟨hkept, hover⟩ := h.kept
  obtain ⟨hstep, herase⟩ := p.steps hkept.nesting_le c
  have hbehind := hstep.kept hkept
  have htokens := hstep.tokens_eq
  refine ⟨hover, herase, ?_, htokens, ?_, ?_, ?_, hbehind.nesting_le, ?_, ?_⟩
  · intro q hq
    rw [hq] at herase
    cases herase
  · have hle := hstep.rest_suffix.length_le
    rw [current, current, htokens]
    omega
  · rw [current, htokens]
    exact Nat.sub_le _ _
  · rw [current, ← htokens]
    exact List.suffix_iff_eq_drop.mp hbehind.rest_suffix
  · intro e q hq
    rw [hq] at hstep
    cases hstep with
    | @read _ ts rest _ hts hwithin =>
      have hpos : 0 < ts.length := List.length_pos_iff.mpr hwithin.derives.ne_nil
      have hle := hkept.rest_suffix.length_le
      rw [hts, List.length_append] at hle
      refine ⟨rfl, ?_, rfl, hwithin.height_le⟩
      simp only [current, hts, List.length_append]
      omega
  · intro fault q hq
    rw [hq] at hstep
    cases hstep with
    | trailing _ _ => exact Nat.le_refl _
    | stopped _ => exact Nat.le_add_right _ _

theorem counts_of_over_array :
    let text := "([1 A".toList
    ∃ p, Over text p ∧ p.nesting = 1 ∧ p.current = 3 ∧ Session.Over text p.session ∧
      p.Counts .expression := by
  intro text
  let tokens : List Token := [⟨.mark .openParen, ['('], ⟨0, 1, 1⟩⟩,
    ⟨.mark .openBracket, ['['], ⟨1, 1, 2⟩⟩, ⟨.number, ['1'], ⟨2, 1, 3⟩⟩,
    ⟨.identifier, ['A'], ⟨4, 1, 5⟩⟩]
  let p := behind ((ofTokens text tokens).call .expression)
  have htokens : tokenize text = .ok tokens := by rfl
  have hover : Over text p := .call .expression (.new .start htokens)
  have hnesting : p.nesting = 1 ∧ p.current = 3 := by decide +kernel
  exact ⟨p, hover, hnesting.1, hnesting.2, counts_of_over hover .expression⟩

end RowFilter.Parser
