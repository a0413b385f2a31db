import RowFilter.Proofs.Failure
import RowFilter.Proofs.Nesting

namespace RowFilter

/-- A derived tree of at most `limit` levels with at most `room` parentheses open at once. -/
structure Grammar.Within (limit room : Nat) (layer : Layer) (ts : List Token) (e : Expr) :
    Prop where
  derives : Derives layer ts e
  height_le : e.height ≤ limit
  nested : Nested room ts

namespace Reader

open Grammar

/-- A reader takes what its layer derives from the front of the tokens. -/
def Sound (limit room : Nat) (layer : Layer) (r : Reader) : Prop :=
  ∀ tokens e rest, r tokens = .ok (e, rest) →
    ∃ ts, tokens = ts ++ rest ∧ Within limit room layer ts e

/-- The reader inside parentheses has one parenthesis less to open. -/
def SoundInside (limit room : Nat) (inner : Option Reader) : Prop :=
  ∀ r, inner = some r → ∃ n, room = n + 1 ∧ Sound limit n .expression r

variable {limit room : Nat} {inner : Option Reader}

theorem literal?_eq_some {t : Token} {l : Literal} :
    literal? t = some (some l) ↔ IsLiteral t l := by
  constructor
  · intro h
    unfold literal? at h
    split at h
    next ht =>
      obtain rfl := Option.some.inj (Option.some.inj h)
      exact .string ht
    next ht =>
      obtain ⟨d, hd, rfl⟩ := Option.map_eq_some_iff.mp (Option.some.inj h)
      exact .number ht hd
    next ht =>
      obtain rfl := Option.some.inj (Option.some.inj h)
      exact .yes ht
    next ht =>
      obtain rfl := Option.some.inj (Option.some.inj h)
      exact .no ht
    next ht =>
      obtain rfl := Option.some.inj (Option.some.inj h)
      exact .null ht
    next => cases h
  · intro h
    cases h with
    | number ht hd => simp [literal?, ht, hd]
    | _ ht => simp [literal?, ht]

theorem elements_sound {tokens rest : List Token} {ls : List Literal}
    (h : elements tokens = .ok (ls, rest)) :
    ∃ ts u, tokens = ts ++ u :: rest ∧ Elements ts ls ∧ u.kind = .mark .closeBracket := by
  induction tokens using elements.induct generalizing ls with
  | case1 => simp [elements, stop] at h
  | case2 t rest' hl => simp [elements, hl, stop] at h
  | case3 t rest' hl => simp [elements, hl, stop] at h
  | case4 t c hl => simp [elements, hl, stop] at h
  | case5 t c hl u rest' hu ih =>
    simp only [elements, hl, hu, if_true] at h
    obtain ⟨⟨cs, rest''⟩, hcs, hpure⟩ := bind_eq_ok.mp h
    obtain ⟨rfl, rfl⟩ := Prod.mk.inj (pure_eq_ok.mp hpure)
    obtain ⟨ts, v, rfl, hts, hv⟩ := ih hcs
    exact ⟨t :: u :: ts, v, rfl, .more (literal?_eq_some.mp hl) hu hts, hv⟩
  | case6 t c hl u rest' hcomma hu =>
    simp only [elements, hl, hu, if_true] at h
    simp only [reduceCtorEq, if_false, TokenKind.mark.injEq] at h
    obtain ⟨rfl, rfl⟩ := Prod.mk.inj (Except.ok.inj h)
    exact ⟨[t], u, rfl, .one (literal?_eq_some.mp hl), hu⟩
  | case7 t c hl u rest' hcomma hclose => simp [elements, hl, hcomma, hclose, stop] at h

theorem item_sound {tokens rest : List Token} {e : Expr} (h : item tokens = .ok (e, rest)) :
    ∃ ts, tokens = ts ++ rest ∧ Item ts e := by
  unfold item at h
  split at h
  next => cases h
  next t tokens =>
    split at h
    next ht =>
      obtain ⟨rfl, rfl⟩ := Prod.mk.inj (Except.ok.inj h)
      exact ⟨[t], rfl, .property ht⟩
    next =>
      split at h
      next ht =>
        obtain ⟨⟨ls, rest'⟩, hls, hpure⟩ := bind_eq_ok.mp h
        obtain ⟨rfl, rfl⟩ := Prod.mk.inj (pure_eq_ok.mp hpure)
        obtain ⟨ts, u, rfl, hts, hu⟩ := elements_sound hls
        exact ⟨t :: ts ++ [u], by simp, .array ht hts hu⟩
      next =>
        split at h
        next => cases h
        next => cases h
        next l hl =>
          obtain ⟨rfl, rfl⟩ := Prod.mk.inj (Except.ok.inj h)
          exact ⟨[t], rfl, .literal (literal?_eq_some.mp hl)⟩

theorem height_of_item {ts : List Token} {e : Expr} (h : Item ts e) : e.height = 1 := by
  cases h <;> rfl

theorem factor_sound (hlimit : 0 < limit) (hinner : SoundInside limit room inner) :
    Sound limit room .factor (factor inner) := by
  intro tokens e rest h
  have hitem : ∀ tokens, item tokens = .ok (e, rest) →
      ∃ ts, tokens = ts ++ rest ∧ Within limit room .factor ts e := by
    intro tokens h
    obtain ⟨ts, rfl, hts⟩ := item_sound h
    have hone := height_of_item hts
    exact ⟨ts, rfl, .item hts, by omega, nested_of_flat hts.flat⟩
  unfold factor at h
  split at h
  next => exact hitem _ h
  next t tokens =>
    split at h
    next ht =>
      split at h
      next => cases h
      next r =>
        split at h
        next => cases h
        next e' rest' hr =>
          split at h
          next u rest'' =>
            split at h
            next hu =>
              obtain ⟨rfl, rfl⟩ := Prod.mk.inj (Except.ok.inj h)
              obtain ⟨n, rfl, hsound⟩ := hinner r rfl
              obtain ⟨ts, rfl, hts⟩ := hsound _ _ _ hr
              have hnested := (nested_parens ht hu hts.derives.depth_eq).mpr ⟨n, rfl, hts.nested⟩
              exact ⟨t :: ts ++ [u], by simp, .parens ht hts.derives hu, hts.height_le, hnested⟩
            next => cases h
          next => cases h
    next => exact hitem _ h

theorem negation_sound (hlimit : 0 < limit) (hinner : SoundInside limit room inner) :
    Sound limit room .negation (negation limit inner) := by
  intro tokens e rest h
  have hfactor : ∀ tokens, factor inner tokens = .ok (e, rest) →
      ∃ ts, tokens = ts ++ rest ∧ Within limit room .negation ts e := by
    intro tokens h
    obtain ⟨ts, rfl, hts⟩ := factor_sound hlimit hinner _ _ _ h
    exact ⟨ts, rfl, .factor hts.derives, hts.height_le, hts.nested⟩
  unfold negation at h
  split at h
  next => exact hfactor _ h
  next t tokens =>
    split at h
    next ht =>
      obtain ⟨⟨f, rest'⟩, hf, hunder⟩ := bind_eq_ok.mp h
      obtain ⟨ts, rfl, hts⟩ := factor_sound hlimit hinner _ _ _ hf
      simp only [under] at hunder
      split at hunder
      next => cases hunder
      next hle =>
        obtain ⟨rfl, rfl⟩ := Prod.mk.inj (Except.ok.inj hunder)
        have hflat : opens t = 0 := by simp [opens, ht]
        exact ⟨t :: ts, rfl, .not ht hts.derives, by omega,
          (nested_cons_of_flat hflat).mpr hts.nested⟩
    next => exact hfactor _ h

theorem nested_append_of_flat {ts us : List Token} (hts : depth ts = 0) (h : Nested room ts)
    (hus : ∀ t ∈ us, opens t = 0) : Nested room (ts ++ us) :=
  (nested_append hts).mpr ⟨h, nested_of_flat hus⟩

theorem nullTest_sound {ts tokens rest : List Token} {e f : Expr}
    (hts : Within limit room .negation ts e) (h : nullTest limit e tokens = .ok (f, rest)) :
    ∃ us, ts ++ tokens = us ++ rest ∧ Within limit room .operand us f := by
  have hplain : Within limit room .operand ts e :=
    ⟨.negation hts.derives, hts.height_le, hts.nested⟩
  have hdepth := hts.derives.depth_eq
  unfold nullTest at h
  split at h
  next =>
    obtain ⟨rfl, rfl⟩ := Prod.mk.inj (Except.ok.inj h)
    exact ⟨ts, rfl, hplain⟩
  next t tokens =>
    split at h
    next ht =>
      split at h
      next => cases h
      next hle =>
        have hheight : (Expr.unary .isNull e).height ≤ limit := by omega
        split at h
        next => cases h
        next u tokens =>
          split at h
          next hu =>
            obtain ⟨rfl, rfl⟩ := Prod.mk.inj (Except.ok.inj h)
            have hflat : ∀ v ∈ [t, u], opens v = 0 := by simp [opens, ht, hu]
            exact ⟨ts ++ [t, u], by simp, .isNull hts.derives ht hu, hheight,
              nested_append_of_flat hdepth hts.nested hflat⟩
          next =>
            split at h
            next hu =>
              split at h
              next => cases h
              next v tokens =>
                split at h
                next hv =>
                  obtain ⟨rfl, rfl⟩ := Prod.mk.inj (Except.ok.inj h)
                  have hflat : ∀ w ∈ [t, u, v], opens w = 0 := by simp [opens, ht, hu, hv]
                  exact ⟨ts ++ [t, u, v], by simp, .isNotNull hts.derives ht hu hv, hheight,
                    nested_append_of_flat hdepth hts.nested hflat⟩
                next => cases h
            next => cases h
    next =>
      obtain ⟨rfl, rfl⟩ := Prod.mk.inj (Except.ok.inj h)
      exact ⟨ts, rfl, hplain⟩

theorem operand_sound (hlimit : 0 < limit) (hinner : SoundInside limit room inner) :
    Sound limit room .operand (operand limit inner) := by
  intro tokens e rest h
  obtain ⟨⟨f, rest'⟩, hf, htest⟩ := bind_eq_ok.mp h
  obtain ⟨ts, rfl, hts⟩ := negation_sound hlimit hinner _ _ _ hf
  exact nullTest_sound hts htest

theorem test?_sound {tokens rest : List Token} {op : BinaryOp}
    (h : test? tokens = some (op, rest)) : ∃ os, tokens = os ++ rest ∧ Test os op := by
  unfold test? at h
  split at h
  next => cases h
  next t tokens =>
    split at h
    next ht =>
      split at h
      next => cases h
      next u tokens =>
        split at h
        next hu =>
          obtain ⟨rfl, rfl⟩ := Prod.mk.inj (Option.some.inj h)
          exact ⟨[t, u], rfl, .notLike ht hu⟩
        next hu =>
          obtain ⟨rfl, rfl⟩ := Prod.mk.inj (Option.some.inj h)
          exact ⟨[t, u], rfl, .notAmong ht hu⟩
        next => cases h
    next =>
      obtain ⟨o, ho, hpair⟩ := Option.map_eq_some_iff.mp h
      obtain ⟨rfl, rfl⟩ := Prod.mk.inj hpair
      refine ⟨[t], rfl, ?_⟩
      unfold testOfKind? at ho
      split at ho
      next ht =>
        obtain rfl := Option.some.inj ho
        exact .like ht
      next ht =>
        obtain rfl := Option.some.inj ho
        exact .among ht
      iterate 6
        next ht =>
          obtain rfl := Option.some.inj ho
          exact .comparison _ ht
      next => cases ho

theorem connective?_sound {tokens rest : List Token} {op : BinaryOp}
    (h : connective? tokens = some (op, rest)) :
    ∃ t c, tokens = t :: rest ∧ op = .connective c ∧ t.kind = .keyword c.keyword := by
  unfold connective? at h
  split at h
  next => cases h
  next t tokens =>
    split at h
    next ht =>
      obtain ⟨rfl, rfl⟩ := Prod.mk.inj (Option.some.inj h)
      exact ⟨t, .and, rfl, rfl, ht⟩
    next ht =>
      obtain ⟨rfl, rfl⟩ := Prod.mk.inj (Option.some.inj h)
      exact ⟨t, .or, rfl, rfl, ht⟩
    next => cases h

/-- Behind a left part, the operator and a right part make a longer left part. -/
def Joins (limit room : Nat) (layer below : Layer)
    (operator : List Token → Option (BinaryOp × List Token)) : Prop :=
  ∀ tokens op rest, operator tokens = some (op, rest) → ∃ os, tokens = os ++ rest ∧
    ∀ ts us l r, Within limit room layer ts l → Within limit room below us r →
      (Expr.binary op l r).height ≤ limit →
      Within limit room layer (ts ++ os ++ us) (.binary op l r)

theorem test?_joins : Joins limit room .comparison .operand test? := by
  intro tokens op rest h
  obtain ⟨os, rfl, hos⟩ := test?_sound h
  refine ⟨os, rfl, fun ts us l r hl hr hle => ?_⟩
  have hleft := nested_append_of_flat hl.derives.depth_eq hl.nested hos.flat
  have hzero : depth (ts ++ os) = 0 := by simp [hl.derives.depth_eq, depth_of_flat hos.flat]
  exact ⟨.test hl.derives hos hr.derives, hle, (nested_append hzero).mpr ⟨hleft, hr.nested⟩⟩

theorem connective?_joins : Joins limit room .expression .comparison connective? := by
  intro tokens op rest h
  obtain ⟨t, c, rfl, rfl, ht⟩ := connective?_sound h
  refine ⟨[t], rfl, fun ts us l r hl hr hle => ?_⟩
  have hflat : ∀ u ∈ [t], opens u = 0 := by simpa using opens_connective ht
  have hleft := nested_append_of_flat hl.derives.depth_eq hl.nested hflat
  have hzero : depth (ts ++ [t]) = 0 := by simp [hl.derives.depth_eq, opens_connective ht]
  exact ⟨.connective hl.derives ht hr.derives, hle,
    (nested_append hzero).mpr ⟨hleft, hr.nested⟩⟩

theorem chain_sound {operator : List Token → Option (BinaryOp × List Token)} {operand : Reader}
    {layer below : Layer} (hjoins : Joins limit room layer below operator)
    (hoperand : Sound limit room below operand) {levels : Nat} {ts tokens rest : List Token}
    {l e : Expr} (hts : Within limit room layer ts l)
    (h : chain limit operator operand levels l tokens = .ok (e, rest)) :
    ∃ us, ts ++ tokens = us ++ rest ∧ Within limit room layer us e := by
  induction levels generalizing ts tokens l with
  | zero =>
    unfold chain at h
    split at h
    next =>
      obtain ⟨rfl, rfl⟩ := Prod.mk.inj (Except.ok.inj h)
      exact ⟨ts, rfl, hts⟩
    next =>
      obtain ⟨⟨r, rest'⟩, _, hlevel⟩ := bind_eq_ok.mp h
      simp [stop] at hlevel
  | succ levels ih =>
    unfold chain at h
    split at h
    next =>
      obtain ⟨rfl, rfl⟩ := Prod.mk.inj (Except.ok.inj h)
      exact ⟨ts, rfl, hts⟩
    next op tokens' hop =>
      obtain ⟨⟨r, rest'⟩, hr, hlevel⟩ := bind_eq_ok.mp h
      obtain ⟨os, rfl, hjoin⟩ := hjoins _ _ _ hop
      obtain ⟨us, rfl, hus⟩ := hoperand _ _ _ hr
      by_cases hle : limit < (Expr.binary op l r).height
      · simp [hle, stop] at hlevel
      · simp only [hle, if_false] at hlevel
        have hlonger := hjoin ts us l r hts hus (by omega)
        obtain ⟨vs, hvs, he⟩ := ih hlonger hlevel
        exact ⟨vs, by rw [← hvs]; simp, he⟩

theorem comparison_sound (hlimit : 0 < limit) (hinner : SoundInside limit room inner) :
    Sound limit room .comparison (comparison limit inner) := by
  intro tokens e rest h
  obtain ⟨⟨l, rest'⟩, hl, hchain⟩ := bind_eq_ok.mp h
  obtain ⟨ts, rfl, hts⟩ := operand_sound hlimit hinner _ _ _ hl
  exact chain_sound test?_joins (operand_sound hlimit hinner)
    ⟨.operand hts.derives, hts.height_le, hts.nested⟩ hchain

theorem expressionWith_sound (hlimit : 0 < limit) (hinner : SoundInside limit room inner) :
    Sound limit room .expression (expressionWith limit inner) := by
  intro tokens e rest h
  obtain ⟨⟨l, rest'⟩, hl, hchain⟩ := bind_eq_ok.mp h
  obtain ⟨ts, rfl, hts⟩ := comparison_sound hlimit hinner _ _ _ hl
  exact chain_sound connective?_joins (comparison_sound hlimit hinner)
    ⟨.comparison hts.derives, hts.height_le, hts.nested⟩ hchain

/-- The tokens that the reader of expressions takes derive its tree within the bounds. -/
theorem expression_sound (hlimit : 0 < limit) :
    Sound limit room .expression (expression limit room) := by
  induction room with
  | zero =>
    intro tokens e rest h
    have hinner : SoundInside limit 0 none := fun r hr => by cases hr
    exact expressionWith_sound hlimit hinner tokens e rest h
  | succ room ih =>
    intro tokens e rest h
    have hinner : SoundInside limit (room + 1) (some (expression limit room)) := by
      intro r hr
      obtain rfl := Option.some.inj hr
      exact ⟨room, rfl, ih⟩
    exact expressionWith_sound hlimit hinner tokens e rest h

end Reader

end RowFilter
