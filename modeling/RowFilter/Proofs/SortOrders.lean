import RowFilter.SortOrder
import RowFilter.Proofs.Failure
import RowFilter.Proofs.Lexemes

namespace RowFilter

/-- How a direction is written. -/
def Direction.word : Direction → List Char
  | ascending => "asc".toList
  | descending => "desc".toList

/-- A name that is no direction. -/
def IsSortName : List Char → Prop
  | [] => False
  | c :: cs => startsName c = true ∧ (∀ d ∈ cs, continuesName d = true) ∧
      ∀ d : Direction, sameIgnoringAsciiCase (c :: cs) d.word = false

namespace SortOrder

/-- The words of a text: commas, and names that are as long as can be, with layout around them. -/
inductive SplitsInto : List Char → List (List Char) → Prop
  | nil : SplitsInto [] []
  | layout {c : Char} {cs : List Char} {ws : List (List Char)} : isLayout c = true →
      SplitsInto cs ws → SplitsInto (c :: cs) ws
  | comma {cs : List Char} {ws : List (List Char)} :
      SplitsInto cs ws → SplitsInto (',' :: cs) ([','] :: ws)
  | name {c : Char} {cs rest : List Char} {ws : List (List Char)} : startsName c = true →
      (∀ d ∈ cs, continuesName d = true) → (∀ d ∈ rest.head?, continuesName d = false) →
      SplitsInto rest ws → SplitsInto (c :: cs ++ rest) ((c :: cs) :: ws)

/-- The words of a term: a name, and perhaps a direction in any case. -/
inductive TermWords : List (List Char) → SortTerm → Prop
  | bare {w : List Char} : IsSortName w → TermWords [w] ⟨.ofList w, .ascending⟩
  | directed {w v : List Char} {d : Direction} : IsSortName w →
      sameIgnoringAsciiCase v d.word = true → TermWords [w, v] ⟨.ofList w, d⟩

/-- The words of terms in their order, with a comma between each two. -/
inductive OrderWords : List (List Char) → List SortTerm → Prop
  | one {ws : List (List Char)} {t : SortTerm} : TermWords ws t → OrderWords ws [t]
  | more {ws vs : List (List Char)} {t : SortTerm} {ts : List SortTerm} : TermWords ws t →
      OrderWords vs ts → OrderWords (ws ++ [','] :: vs) (t :: ts)

/-- A word as a token. -/
inductive IsWordToken : Token → Prop
  | comma (p : Position) : IsWordToken ⟨.mark .comma, [','], p⟩
  | name {c : Char} {cs : List Char} (p : Position) : startsName c = true →
      (∀ d ∈ cs, continuesName d = true) → IsWordToken ⟨.identifier, c :: cs, p⟩

variable {text : List Char} {ws : List (List Char)} {ts : List Token} {terms : List SortTerm}

theorem not_delimiter_of_startsName {c : Char} (h : startsName c = true) :
    isLayout c = false ∧ c ≠ ',' := by
  have hdelimiter : isDelimiter c = false := by
    cases hc : isDelimiter c with
    | false => rfl
    | true =>
      have hword := (not_word_of_isDelimiter hc).2.1
      rw [continuesName_of_startsName h] at hword
      cases hword
  obtain ⟨hlayout, hmark⟩ := Bool.or_eq_false_iff.mp hdelimiter
  refine ⟨hlayout, ?_⟩
  rintro rfl
  cases hmark

theorem wordsFrom_sound {fuel : Nat} {p : Position} (hfuel : text.length ≤ fuel) :
    ∀ {ts : List Token}, wordsFrom fuel p text = .ok ts →
      SplitsInto text (ts.map (·.text)) ∧ ∀ t ∈ ts, IsWordToken t := by
  induction fuel, p, text using wordsFrom.induct with
  | case1 p rest =>
    intro ts h
    obtain rfl := List.length_eq_zero_iff.mp (Nat.le_zero.mp hfuel)
    cases h
    exact ⟨.nil, List.forall_mem_nil _⟩
  | case2 fuel p =>
    intro ts h
    cases h
    exact ⟨.nil, List.forall_mem_nil _⟩
  | case3 fuel p c cs hlayout ih =>
    intro ts h
    simp only [wordsFrom, hlayout, if_true] at h
    obtain ⟨hsplit, hwords⟩ := ih (Nat.le_of_succ_le_succ hfuel) h
    exact ⟨.layout hlayout hsplit, hwords⟩
  | case4 fuel p cs hlayout ih =>
    intro ts h
    simp only [wordsFrom, hlayout, if_true, Bool.false_eq_true, if_false] at h
    obtain ⟨rest, hrest, hpure⟩ := bind_eq_ok.mp h
    obtain rfl := pure_eq_ok.mp hpure
    obtain ⟨hsplit, hwords⟩ := ih (Nat.le_of_succ_le_succ hfuel) hrest
    exact ⟨.comma hsplit, List.forall_mem_cons.mpr ⟨.comma p, hwords⟩⟩
  | case5 fuel p c cs hlayout hcomma hname word ih =>
    intro ts h
    simp only [wordsFrom, hlayout, hcomma, hname, if_true, Bool.false_eq_true, if_false] at h
    obtain ⟨rest, hrest, hpure⟩ := bind_eq_ok.mp h
    obtain rfl := pure_eq_ok.mp hpure
    have hdropped : (cs.dropWhile continuesName).length ≤ cs.length :=
      (List.dropWhile_sublist _).length_le
    obtain ⟨hsplit, hwords⟩ := ih (Nat.le_trans hdropped (Nat.le_of_succ_le_succ hfuel)) hrest
    have hcs : cs.takeWhile continuesName ++ cs.dropWhile continuesName = cs :=
      List.takeWhile_append_dropWhile
    have hrun : ∀ d ∈ cs.takeWhile continuesName, continuesName d = true := all_takeWhile
    have hwhole := SplitsInto.name hname hrun head_dropWhile hsplit
    rw [List.cons_append, hcs] at hwhole
    exact ⟨hwhole, List.forall_mem_cons.mpr ⟨.name p hname hrun, hwords⟩⟩
  | case6 fuel p c cs hlayout hcomma hname =>
    intro ts h
    simp only [wordsFrom, hlayout, hcomma, hname, Bool.false_eq_true, if_false] at h
    cases h

theorem exists_fuel {fuel : Nat} {c : Char} {cs : List Char} (h : (c :: cs).length ≤ fuel) :
    ∃ less, fuel = less + 1 :=
  Nat.exists_eq_add_one_of_ne_zero (Nat.ne_of_gt (Nat.lt_of_lt_of_le (Nat.succ_pos _) h))

theorem wordsFrom_complete (h : SplitsInto text ws) {fuel : Nat} (hfuel : text.length ≤ fuel)
    (p : Position) : ∃ ts, wordsFrom fuel p text = .ok ts ∧ ts.map (·.text) = ws := by
  induction h generalizing fuel p with
  | nil => cases fuel <;> exact ⟨[], rfl, rfl⟩
  | @layout c cs ws hlayout _ ih =>
    obtain ⟨fuel, rfl⟩ := exists_fuel hfuel
    simp only [wordsFrom, hlayout, if_true]
    exact ih (Nat.le_of_succ_le_succ hfuel) _
  | @comma cs ws _ ih =>
    obtain ⟨fuel, rfl⟩ := exists_fuel hfuel
    obtain ⟨ts, hts, rfl⟩ := ih (Nat.le_of_succ_le_succ hfuel) (p.next ',')
    refine ⟨⟨.mark .comma, [','], p⟩ :: ts, ?_, rfl⟩
    have hlayout : isLayout ',' = false := by decide
    simp only [wordsFrom, hlayout, if_true, Bool.false_eq_true, if_false]
    exact bind_eq_ok.mpr ⟨ts, hts, rfl⟩
  | @name c cs rest ws hname hcs hrest _ ih =>
    obtain ⟨fuel, rfl⟩ := exists_fuel hfuel
    obtain ⟨hlayout, hcomma⟩ := not_delimiter_of_startsName hname
    obtain ⟨htake, hdrop⟩ := span_run hcs rest hrest
    have hlength : rest.length ≤ fuel := by
      simp only [List.length_append, List.length_cons] at hfuel
      omega
    obtain ⟨ts, hts, rfl⟩ := ih hlength (p.after (c :: cs))
    refine ⟨⟨.identifier, c :: cs, p⟩ :: ts, ?_, rfl⟩
    simp only [List.cons_append, wordsFrom, hlayout, hcomma, hname, if_true, Bool.false_eq_true,
      if_false, htake, hdrop]
    exact bind_eq_ok.mpr ⟨ts, hts, rfl⟩

theorem splitsInto_nil : SplitsInto text [] ↔ ∀ c ∈ text, isLayout c = true := by
  constructor
  · intro h
    generalize hws : ([] : List (List Char)) = ws at h
    induction h with
    | nil => exact List.forall_mem_nil _
    | layout hlayout _ ih => exact List.forall_mem_cons.mpr ⟨hlayout, ih hws⟩
    | comma _ _ => cases hws
    | name _ _ _ _ _ => cases hws
  · intro h
    induction text with
    | nil => exact .nil
    | cons c cs ih =>
      obtain ⟨hc, hcs⟩ := List.forall_mem_cons.mp h
      exact .layout hc (ih hcs)

theorem direction?_eq_some {t : Token} {d : Direction} :
    direction? t = some d ↔ sameIgnoringAsciiCase t.text d.word = true := by
  have hapart : sameIgnoringAsciiCase t.text "asc".toList = true →
      ¬ sameIgnoringAsciiCase t.text "desc".toList = true := by
    intro hasc hdesc
    have hsame := (of_decide_eq_true hasc).symm.trans (of_decide_eq_true hdesc)
    revert hsame
    decide
  unfold direction?
  split
  next hasc =>
    cases d with
    | ascending => exact iff_of_true rfl hasc
    | descending => exact iff_of_false (by simp) (hapart hasc)
  next hasc =>
    split
    next hdesc =>
      cases d with
      | ascending => exact iff_of_false (by simp) hasc
      | descending => exact iff_of_true rfl hdesc
    next hdesc =>
      cases d with
      | ascending => exact iff_of_false (by simp) hasc
      | descending => exact iff_of_false (by simp) hdesc

theorem direction?_eq_none {t : Token} :
    direction? t = none ↔ ∀ d : Direction, sameIgnoringAsciiCase t.text d.word = false := by
  simp only [Option.eq_none_iff_forall_ne_some, ne_eq, direction?_eq_some, Bool.not_eq_true]

theorem IsWordToken.isSortName_iff {t : Token} (h : IsWordToken t) :
    IsSortName t.text ↔ ¬ (t.kind ≠ .identifier ∨ (direction? t).isSome = true) := by
  simp only [not_or, ne_eq, Decidable.not_not, Option.not_isSome_iff_eq_none, direction?_eq_none]
  cases h with
  | comma p =>
    constructor
    · rintro ⟨hcomma, _⟩
      exact absurd rfl (not_delimiter_of_startsName hcomma).2
    · rintro ⟨hkind, _⟩
      cases hkind
  | name p hname hcs =>
    exact ⟨fun hsort => ⟨rfl, hsort.2.2⟩, fun hsort => ⟨hname, hcs, hsort.2⟩⟩

theorem IsWordToken.eq_comma_iff {t : Token} (h : IsWordToken t) :
    t.text = [','] ↔ t.kind = .mark .comma := by
  cases h with
  | comma p => exact iff_of_true rfl rfl
  | name p hname _ =>
    refine iff_of_false ?_ (fun hkind => by cases hkind)
    rintro hcomma
    obtain rfl := (List.cons.inj hcomma).1
    exact (not_delimiter_of_startsName hname).2 rfl

theorem takeDirection_cases {rest behind : List Token} {d : Direction}
    (h : takeDirection rest = (d, behind)) :
    (d = .ascending ∧ behind = rest) ∨ ∃ t, direction? t = some d ∧ rest = t :: behind := by
  unfold takeDirection at h
  split at h
  next =>
    cases h
    exact .inl ⟨rfl, rfl⟩
  next t rest =>
    split at h
    next hd =>
      cases h
      exact .inr ⟨t, hd, rfl⟩
    next =>
      cases h
      exact .inl ⟨rfl, rfl⟩

/-- Taking a name and then a direction takes the words of a term. -/
theorem exists_term {t : Token} {rest behind : List Token} {d : Direction}
    (ht : IsSortName t.text) (h : takeDirection rest = (d, behind)) :
    ∃ front, t :: rest = front ++ behind ∧
      TermWords (front.map (·.text)) ⟨.ofList t.text, d⟩ := by
  rcases takeDirection_cases h with ⟨rfl, rfl⟩ | ⟨u, hu, rfl⟩
  · exact ⟨[t], rfl, .bare ht⟩
  · exact ⟨[t, u], rfl, .directed ht (direction?_eq_some.mp hu)⟩

/-- The words of a term are taken whole, if what stands behind them is no direction. -/
theorem TermWords.takeDirection {front : List Token} {term : SortTerm}
    (h : TermWords (front.map (·.text)) term) :
    ∃ t rest, front = t :: rest ∧ IsSortName t.text ∧ .ofList t.text = term.property ∧
      ∀ behind : List Token, (∀ u ∈ behind.head?, direction? u = none) →
        SortOrder.takeDirection (rest ++ behind) = (term.direction, behind) := by
  generalize hws : front.map (·.text) = ws at h
  cases h with
  | bare hname =>
    obtain ⟨t, rfl, rfl⟩ := List.map_eq_singleton_iff.mp hws
    refine ⟨t, [], rfl, hname, rfl, fun behind hbehind => ?_⟩
    cases behind with
    | nil => rfl
    | cons u rest => simp only [List.nil_append, SortOrder.takeDirection, hbehind u rfl]
  | directed hname hd =>
    obtain ⟨t, rest, rfl, rfl, hrest⟩ := List.map_eq_cons_iff.mp hws
    obtain ⟨u, rfl, rfl⟩ := List.map_eq_singleton_iff.mp hrest
    refine ⟨t, [u], rfl, hname, rfl, fun behind _ => ?_⟩
    simp only [List.singleton_append, SortOrder.takeDirection, direction?_eq_some.mpr hd]

theorem takeTerms_sound {fuel : Nat} (h : takeTerms fuel ts = .ok terms)
    (hwords : ∀ t ∈ ts, IsWordToken t) : OrderWords (ts.map (·.text)) terms := by
  induction fuel, ts using takeTerms.induct generalizing terms with
  | case1 rest => cases h
  | case2 => cases h
  | case3 fuel t rest hproperty =>
    simp only [takeTerms, hproperty, if_true] at h
    cases h
  | case4 fuel t rest hproperty direction hdirection =>
    simp only [takeTerms, hproperty, hdirection, if_false] at h
    obtain rfl := Except.ok.inj h
    have hname := (hwords t List.mem_cons_self).isSortName_iff.mpr hproperty
    obtain ⟨front, hall, hterm⟩ := exists_term hname hdirection
    rw [hall, List.append_nil]
    exact .one hterm
  | case5 fuel t rest hproperty direction u behind hcomma hdirection ih =>
    simp only [takeTerms, hproperty, hdirection, hcomma, if_false, if_true] at h
    obtain ⟨more, hmore, hpure⟩ := bind_eq_ok.mp h
    obtain rfl := pure_eq_ok.mp hpure
    have hname := (hwords t List.mem_cons_self).isSortName_iff.mpr hproperty
    obtain ⟨front, hall, hterm⟩ := exists_term hname hdirection
    rw [hall] at hwords ⊢
    have hbehind := (List.forall_mem_append.mp hwords).2
    obtain ⟨hu, hmoreWords⟩ := List.forall_mem_cons.mp hbehind
    rw [List.map_append, List.map_cons, hu.eq_comma_iff.mpr hcomma]
    exact .more hterm (ih hmore hmoreWords)
  | case6 fuel t rest hproperty direction u behind hcomma hdirection =>
    simp only [takeTerms, hproperty, hdirection, hcomma, if_false] at h
    cases h

/-- The words of a term are read as the term, and reading goes on behind a comma. -/
theorem takeTerms_term {front : List Token} {term : SortTerm} (fuel : Nat)
    (hterm : TermWords (front.map (·.text)) term) (hwords : ∀ t ∈ front, IsWordToken t) :
    takeTerms (fuel + 1) front = .ok [term] ∧
      ∀ u rest, IsWordToken u → u.kind = .mark .comma →
        takeTerms (fuel + 1) (front ++ u :: rest) =
          (do return term :: (← takeTerms fuel rest)) := by
  obtain ⟨property, direction⟩ := term
  obtain ⟨t, rest, rfl, hname, rfl, htake⟩ := hterm.takeDirection
  have hproperty := (hwords t List.mem_cons_self).isSortName_iff.mp hname
  constructor
  · have hend := htake [] (by simp)
    rw [List.append_nil] at hend
    simp only [takeTerms, hproperty, hend, if_false]
  · intro u more hu hcomma
    have hdirection : direction? u = none := by
      rw [direction?_eq_none, hu.eq_comma_iff.mpr hcomma]
      rintro (_ | _) <;> decide
    have hbehind := htake (u :: more) (by simpa using hdirection)
    simp only [List.cons_append, takeTerms, hproperty, hbehind, hcomma, if_false, if_true]

theorem takeTerms_complete (h : OrderWords ws terms) {fuel : Nat} (hts : ts.map (·.text) = ws)
    (hwords : ∀ t ∈ ts, IsWordToken t) (hfuel : ts.length ≤ fuel) :
    takeTerms (fuel + 1) ts = .ok terms := by
  induction h generalizing ts fuel with
  | one hterm =>
    subst hts
    exact (takeTerms_term fuel hterm hwords).1
  | more hterm _ ih =>
    obtain ⟨front, behind, rfl, rfl, hbehind⟩ := List.map_eq_append_iff.mp hts
    obtain ⟨u, more, rfl, hcomma, rfl⟩ := List.map_eq_cons_iff.mp hbehind
    obtain ⟨hfront, hrest⟩ := List.forall_mem_append.mp hwords
    obtain ⟨hu, hmore⟩ := List.forall_mem_cons.mp hrest
    -- The comma alone leaves fewer tokens, so there is fuel for them.
    cases fuel with
    | zero => simp at hfuel
    | succ fuel =>
      have hlength : more.length ≤ fuel := by
        simp only [List.length_append, List.length_cons] at hfuel
        omega
      have hread := (takeTerms_term (fuel + 1) hterm hfront).2 u more hu
      rw [hread (hu.eq_comma_iff.mp hcomma)]
      exact bind_eq_ok.mpr ⟨_, ih rfl hmore hlength, rfl⟩

theorem OrderWords.ne_nil (h : OrderWords ws terms) : ws ≠ [] := by
  cases h with
  | one hterm => cases hterm <;> simp
  | more _ _ => simp

/-- A text is a sort order when it is blank, or when its words are those of terms. -/
theorem parse_eq_ok {order : SortOrder} : parse text = .ok order ↔
    (order.terms = [] ∧ ∀ c ∈ text, isLayout c = true) ∨
      ∃ ws, SplitsInto text ws ∧ OrderWords ws order.terms := by
  constructor
  · intro h
    unfold parse at h
    split at h
    next => cases h
    next hnil =>
      obtain rfl := Except.ok.inj h
      have hsplit := (wordsFrom_sound (Nat.le_refl _) hnil).1
      exact .inl ⟨rfl, splitsInto_nil.mp hsplit⟩
    next tokens _ htokens =>
      obtain ⟨hsplit, hwords⟩ := wordsFrom_sound (Nat.le_refl _) htokens
      split at h
      next terms hterms =>
        obtain rfl := Except.ok.inj h
        exact .inr ⟨_, hsplit, takeTerms_sound hterms hwords⟩
      next => cases h
  · obtain ⟨terms⟩ := order
    rintro (⟨rfl, hblank⟩ | ⟨ws, hsplit, horder⟩)
    · obtain ⟨ts, hts, hnil⟩ :=
        wordsFrom_complete (splitsInto_nil.mpr hblank) (Nat.le_refl _) .start
      obtain rfl := List.map_eq_nil_iff.mp hnil
      unfold parse words
      simp only [hts]
    · obtain ⟨ts, hts, rfl⟩ := wordsFrom_complete hsplit (Nat.le_refl _) .start
      have hwords := (wordsFrom_sound (Nat.le_refl _) hts).2
      have hterms := takeTerms_complete horder rfl hwords (Nat.le_refl _)
      have hne : ts ≠ [] := fun hnil => horder.ne_nil (by rw [hnil]; rfl)
      cases ts with
      | nil => exact absurd rfl hne
      | cons t ts =>
        unfold parse words
        simp only [hts, hterms]

end SortOrder

/-- What is written for a term. -/
def SortTerm.sql (t : SortTerm) : List Char :=
  match t.direction with
  | .ascending => t.property.toList
  | .descending => t.property.toList ++ " desc".toList

/-- The words of what is written for a term. -/
def SortTerm.words (t : SortTerm) : List (List Char) :=
  match t.direction with
  | .ascending => [t.property.toList]
  | .descending => [t.property.toList, Direction.descending.word]

namespace SortOrder

variable {text rest : List Char} {ws : List (List Char)} {terms : List SortTerm} {t : SortTerm}

theorem termWords_words (h : IsSortName t.property.toList) : TermWords t.words t := by
  obtain ⟨property, direction⟩ := t
  have hproperty : String.ofList property.toList = property := String.ofList_toList
  cases direction with
  | ascending =>
    have hterm := TermWords.bare h
    rwa [hproperty] at hterm
  | descending =>
    have hterm := TermWords.directed (d := .descending) h (decide_eq_true rfl)
    rwa [hproperty] at hterm

theorem SplitsInto.sortName {w : List Char} (hw : IsSortName w)
    (hrest : ∀ d ∈ rest.head?, continuesName d = false) (h : SplitsInto rest ws) :
    SplitsInto (w ++ rest) (w :: ws) := by
  cases w with
  | nil => exact hw.elim
  | cons c cs => exact .name hw.1 hw.2.1 hrest h

theorem splitsInto_sql (hname : IsSortName t.property.toList)
    (hrest : ∀ d ∈ rest.head?, continuesName d = false) (h : SplitsInto rest ws) :
    SplitsInto (t.sql ++ rest) (t.words ++ ws) := by
  obtain ⟨property, direction⟩ := t
  cases direction with
  | ascending => exact .sortName hname hrest h
  | descending =>
    have hletters : ∀ d ∈ "esc".toList, continuesName d = true := List.all_eq_true.mp (by decide)
    have hdirection : SplitsInto ("desc".toList ++ rest) ("desc".toList :: ws) :=
      .name (by decide) hletters hrest h
    have hblank : SplitsInto (" desc".toList ++ rest) ("desc".toList :: ws) :=
      .layout (by decide) hdirection
    have hwhole := SplitsInto.sortName hname (by rintro _ ⟨⟩; decide) hblank
    rwa [← List.append_assoc] at hwhole

theorem splitsInto_terms (hterms : ∀ t ∈ terms, IsSortName t.property.toList) (hne : terms ≠ []) :
    ∃ ws, SplitsInto ([',', ' '].intercalate (terms.map SortTerm.sql)) ws ∧
      OrderWords ws terms := by
  induction terms with
  | nil => exact absurd rfl hne
  | cons t terms ih =>
    obtain ⟨hname, hmore⟩ := List.forall_mem_cons.mp hterms
    have hterm := termWords_words hname
    cases terms with
    | nil =>
      have hsplit := splitsInto_sql hname (by simp) .nil
      rw [List.append_nil, List.append_nil] at hsplit
      exact ⟨t.words, by simpa using hsplit, .one hterm⟩
    | cons u terms =>
      obtain ⟨ws, hsplit, horder⟩ := ih hmore (List.cons_ne_nil u terms)
      have hcomma := SplitsInto.comma (.layout (c := ' ') (by decide) hsplit)
      have hwhole := splitsInto_sql hname (by rintro _ ⟨⟩; decide) hcomma
      exact ⟨_, by simpa using hwhole, .more hterm horder⟩

theorem termsToSql_names {ε : Type} (terms : List SortTerm) :
    termsToSql (fun name => (.ok name.toList : Except ε (List Char))) terms =
      .ok (terms.map SortTerm.sql) := by
  induction terms with
  | nil => rfl
  | cons t terms ih =>
    have hterm : t.sql = match t.direction with
      | .ascending => t.property.toList
      | .descending => t.property.toList ++ " desc".toList := rfl
    refine bind_eq_ok.mpr ⟨t.property.toList, rfl, bind_eq_ok.mpr ⟨_, ih, ?_⟩⟩
    rw [List.map_cons, hterm]
    rfl

theorem toSql_names {ε : Type} (order : SortOrder) :
    order.toSql (fun name => (.ok name.toList : Except ε (List Char))) =
      .ok ([',', ' '].intercalate (order.terms.map SortTerm.sql)) :=
  bind_eq_ok.mpr ⟨_, termsToSql_names order.terms, rfl⟩

theorem parse_sql {order : SortOrder} (h : ∀ t ∈ order.terms, IsSortName t.property.toList) :
    parse ([',', ' '].intercalate (order.terms.map SortTerm.sql)) = .ok order := by
  rw [parse_eq_ok]
  -- An order without terms is written as nothing, which has no words.
  by_cases hempty : order.terms = []
  · exact .inl ⟨hempty, by simp [hempty]⟩
  · exact .inr (splitsInto_terms h hempty)

theorem TermWords.isSortName (h : TermWords ws t) : IsSortName t.property.toList := by
  cases h with
  | bare hname => rwa [String.toList_ofList]
  | directed hname _ => rwa [String.toList_ofList]

theorem OrderWords.isSortName (h : OrderWords ws terms) :
    ∀ t ∈ terms, IsSortName t.property.toList := by
  induction h with
  | one hterm => exact List.forall_mem_cons.mpr ⟨hterm.isSortName, List.forall_mem_nil _⟩
  | more hterm _ ih => exact List.forall_mem_cons.mpr ⟨hterm.isSortName, ih⟩

theorem isSortName_of_parse {order : SortOrder} (h : parse text = .ok order) :
    ∀ t ∈ order.terms, IsSortName t.property.toList := by
  rcases parse_eq_ok.mp h with ⟨hempty, _⟩ | ⟨ws, _, horder⟩
  · rw [hempty]
    exact List.forall_mem_nil _
  · exact horder.isSortName

/-- A text is read as a sort order exactly when it is blank, for the order without terms, or its
words are those of the terms with a comma between each two. What is written for an order of names
is read as the same order, and so is what is written for the order of any text. -/
theorem parse_reads_back {ε : Type} (text : List Char) (order : SortOrder) :
    let sql := order.toSql fun name => (.ok name.toList : Except ε (List Char))
    (parse text = .ok order ↔
      (order.terms = [] ∧ ∀ c ∈ text, isLayout c = true) ∨
        ∃ ws, SplitsInto text ws ∧ OrderWords ws order.terms) ∧
    ((∀ t ∈ order.terms, IsSortName t.property.toList) →
      ∃ written, sql = .ok written ∧ parse written = .ok order) ∧
    (parse text = .ok order → ∃ written, sql = .ok written ∧ parse written = .ok order) := by
  intro sql
  have hback : (∀ t ∈ order.terms, IsSortName t.property.toList) →
      ∃ written, sql = .ok written ∧ parse written = .ok order :=
    fun h => ⟨_, toSql_names order, parse_sql h⟩
  exact ⟨parse_eq_ok, hback, fun h => hback (isSortName_of_parse h)⟩

theorem parse_reads_back_directions :
    let text := " Größe DESC,\ta asc, b".toList
    let order : SortOrder := ⟨[⟨"Größe", .descending⟩, ⟨"a", .ascending⟩, ⟨"b", .ascending⟩]⟩
    let sql := order.toSql fun name => (.ok name.toList : Except ParseError (List Char))
    parse text = .ok order ∧ (∃ ws, SplitsInto text ws ∧ OrderWords ws order.terms) ∧
      sql = .ok "Größe desc, a, b".toList ∧ ∃ written, sql = .ok written ∧
        parse written = .ok order := by
  intro text order sql
  have hparse : parse text = .ok order := by rfl
  obtain ⟨hreads, hnames, _⟩ := @parse_reads_back ParseError text order
  have hwords := (hreads.mp hparse).resolve_left (by simp [order])
  exact ⟨hparse, hwords, by rfl, hnames (isSortName_of_parse hparse)⟩

end SortOrder

end RowFilter
