import RowFilter.Proofs.Reparsed

namespace RowFilter

open Grammar

/-- A text in parentheses. -/
def enclosed (text : List Char) : List Char :=
  '(' :: text ++ [')']

/-- Two texts in parentheses with a connective between them. -/
def joinedTexts (c : Connective) (a b : List Char) : List Char :=
  enclosed a ++ (' ' :: c.keyword.spelling ++ [' ']) ++ enclosed b

/-- A text in parentheses behind `not`. -/
def negatedText (text : List Char) : List Char :=
  "not ".toList ++ enclosed text

def enclosedWords (words : List Token) : List Token :=
  Mark.openParen.word :: words ++ [Mark.closeParen.word]

/-- There is room for a level above the tree of a text and for parentheses around the text. -/
structure Enclosable (text : List Char) (e : Expr) : Prop where
  height_le : e.height ≤ maxDepth - 1
  nested : ∃ ts, tokenize text = .ok ts ∧ Nested (maxDepth - 1) ts

theorem lexes_enclosed {text : List Char} {words : List Token} (h : Lexes text words) :
    Lexes (enclosed text) (enclosedWords words) :=
  Expr.lexes_grouped true h

theorem lexes_joined (c : Connective) {a b : List Char} {us vs : List Token} (ha : Lexes a us)
    (hb : Lexes b vs) :
    Lexes (joinedTexts c a b) (enclosedWords us ++ [c.keyword.word] ++ enclosedWords vs) := by
  have hword : Lexes (' ' :: c.keyword.spelling ++ [' ']) [c.keyword.word] := by
    cases c <;> exact lexes_of_words rfl
  have hleft := (lexes_enclosed ha).append hword
    (apart_right rfl (by decide) (by decide) (by decide))
  have hspace : (enclosed a ++ (' ' :: c.keyword.spelling ++ [' '])).getLast? = some ' ' := by
    rw [getLast?_append_of_ne_nil (by simp)]
    exact List.getLast?_concat
  exact hleft.append (lexes_enclosed hb) (apart_left hspace (by decide) (by decide) (by decide))

theorem lexes_negated {text : List Char} {words : List Token} (h : Lexes text words) :
    Lexes (negatedText text) (Keyword.not.word :: enclosedWords words) := by
  have hnot : Lexes "not ".toList [Keyword.not.word] := lexes_of_words rfl
  exact hnot.append (lexes_enclosed h) (apart_left rfl (by decide) (by decide) (by decide))

/-- Whatever stands around a text in parentheses, its tokens are the same. -/
theorem lexes_around {a b text : List Char} {us vs words : List Token} (ha : Lexes a us)
    (hb : Lexes b vs) (h : Lexes text words) :
    Lexes (a ++ enclosed text ++ b) (us ++ enclosedWords words ++ vs) := by
  have hleft := ha.append (lexes_enclosed h) (apart_right rfl (by decide) (by decide) (by decide))
  have hclose : (a ++ enclosed text).getLast? = some ')' := by
    rw [getLast?_append_of_ne_nil (by simp [enclosed])]
    exact List.getLast?_concat
  exact hleft.append hb (apart_left hclose (by decide) (by decide) (by decide))

namespace Grammar

variable {limit room : Nat} {us vs : List Token} {e f t : Expr}

theorem nested_enclosed (h : depth us = 0) :
    Nested (room + 1) (enclosedWords us) ↔ Nested room us := by
  rw [enclosedWords, nested_parens rfl rfl h]
  constructor
  · rintro ⟨inner, heq, hinner⟩
    obtain rfl := Nat.succ.inj heq
    exact hinner
  · exact fun hinner => ⟨room, rfl, hinner⟩

theorem depth_enclosed (h : depth us = 0) : depth (enclosedWords us) = 0 := by
  rw [enclosedWords, depth_append, depth_cons, h]
  rfl

theorem nested_map_bare : Nested room (us.map Token.bare) ↔ Nested room us := by
  have hsense : (us.map Token.bare).map Token.sense = us.map Token.sense := by
    simp [Function.comp_def, Token.sense_bare]
  rw [← nested_map_sense, hsense, nested_map_sense]

/-- Since tokens derive one tree at most, only the bounds can keep a reader from it. -/
theorem Derives.within_iff (h : Derives .expression us e) :
    Within limit room .expression us t ↔ t = e ∧ e.height ≤ limit ∧ Nested room us := by
  constructor
  · intro hw
    obtain rfl := hw.derives.unique h
    exact ⟨rfl, hw.height_le, hw.nested⟩
  · rintro ⟨rfl, hle, hnested⟩
    exact ⟨h, hle, hnested⟩

theorem Derives.enclosed {layer : Layer} (h : Derives .expression us e) :
    Derives layer (enclosedWords us) e := by
  have hfactor : Derives .factor (enclosedWords us) e := .parens rfl h rfl
  exact hfactor.mono (Nat.zero_le _)

theorem Derives.joined (c : Connective) (he : Derives .expression us e)
    (hf : Derives .expression vs f) :
    Derives .expression (enclosedWords us ++ [c.keyword.word] ++ enclosedWords vs)
      (.binary (.connective c) e f) :=
  .connective he.enclosed rfl hf.enclosed

theorem Derives.negated (h : Derives .expression us e) :
    Derives .expression (Keyword.not.word :: enclosedWords us) (.unary .not e) := by
  have hnegation : Derives .negation (Keyword.not.word :: enclosedWords us) (.unary .not e) :=
    .not rfl h.enclosed
  exact hnegation.mono (by decide)

theorem nested_joined (c : Connective) (hu : depth us = 0) (hv : depth vs = 0) :
    Nested (room + 1) (enclosedWords us ++ [c.keyword.word] ++ enclosedWords vs) ↔
      Nested room us ∧ Nested room vs := by
  have hflat : opens c.keyword.word = 0 := by cases c <;> rfl
  rw [List.append_assoc, nested_append (depth_enclosed hu), List.singleton_append,
    nested_cons_of_flat hflat, nested_enclosed hu, nested_enclosed hv]

end Grammar

/-- The words of an accepted text derive its tree, and close the parentheses that they open. -/
theorem exists_words {text : List Char} {e : Expr} (h : parseWhere text = .ok e) :
    ∃ ts, tokenize text = .ok ts ∧ Lexes text (ts.map Token.bare) ∧
      Derives .expression (ts.map Token.bare) e := by
  obtain ⟨ts, hts, _⟩ := parseWhere_eq_ok.mp h
  have hlexes := lexes_of_tokenize hts
  exact ⟨ts, hts, hlexes, ((parseWhere_of_lexes hlexes).mp h).derives⟩

theorem enclosable_iff {text : List Char} {ts : List Token} {e : Expr}
    (h : tokenize text = .ok ts) :
    Enclosable text e ↔ e.height ≤ maxDepth - 1 ∧ Nested (maxDepth - 1) (ts.map Token.bare) := by
  rw [nested_map_bare]
  constructor
  · rintro ⟨hle, us, hus, hnested⟩
    rw [h] at hus
    obtain rfl := Except.ok.inj hus
    exact ⟨hle, hnested⟩
  · rintro ⟨hle, hnested⟩
    exact ⟨hle, ts, h, hnested⟩

/-- Two accepted texts in parentheses are read as their trees under the connective, or not at all,
and they are read when both leave room for that. -/
theorem parseWhere_joined {a b : List Char} {e f t : Expr} (c : Connective)
    (ha : parseWhere a = .ok e) (hb : parseWhere b = .ok f) :
    parseWhere (joinedTexts c a b) = .ok t ↔
      t = .binary (.connective c) e f ∧ Enclosable a e ∧ Enclosable b f := by
  obtain ⟨us, hus, hlexu, hderu⟩ := exists_words ha
  obtain ⟨vs, hvs, hlexv, hderv⟩ := exists_words hb
  have hheight : (Expr.binary (.connective c) e f).height ≤ maxDepth ↔
      e.height ≤ maxDepth - 1 ∧ f.height ≤ maxDepth - 1 := by
    have hmax : (Expr.binary (.connective c) e f).height = max e.height f.height + 1 := rfl
    have hdepth : maxDepth = 256 := rfl
    omega
  have hnested : Nested maxDepth (enclosedWords _ ++ [c.keyword.word] ++ enclosedWords _) ↔
      Nested (maxDepth - 1) _ ∧ Nested (maxDepth - 1) _ :=
    nested_joined c hderu.depth_eq hderv.depth_eq
  rw [parseWhere_of_lexes (lexes_joined c hlexu hlexv), (hderu.joined c hderv).within_iff,
    enclosable_iff hus, enclosable_iff hvs, hheight, hnested, and_and_and_comm]

theorem parseWhere_negated {text : List Char} {e t : Expr} (h : parseWhere text = .ok e) :
    parseWhere (negatedText text) = .ok t ↔ t = .unary .not e ∧ Enclosable text e := by
  obtain ⟨ts, hts, hlexes, hder⟩ := exists_words h
  have hheight : (Expr.unary .not e).height ≤ maxDepth ↔ e.height ≤ maxDepth - 1 := by
    have hsucc : (Expr.unary .not e).height = e.height + 1 := rfl
    have hdepth : maxDepth = 256 := rfl
    omega
  have hnested : Nested maxDepth (enclosedWords _) ↔ Nested (maxDepth - 1) _ :=
    nested_enclosed hder.depth_eq
  have hflat : opens Keyword.not.word = 0 := rfl
  rw [parseWhere_of_lexes (lexes_negated hlexes), hder.negated.within_iff, enclosable_iff hts,
    hheight, nested_cons_of_flat hflat, hnested]

/-- Accepted texts can be put together. In parentheses they are read as operands with their own
trees, exactly when there is room for that; and wherever an accepted text stands in parentheses,
its tokens are the same and close only the parentheses that they open. -/
theorem parseWhere_encloses {a b : List Char} {e f : Expr} (ha : parseWhere a = .ok e)
    (hb : parseWhere b = .ok f) :
    (∀ c t, parseWhere (joinedTexts c a b) = .ok t ↔
      t = .binary (.connective c) e f ∧ Enclosable a e ∧ Enclosable b f) ∧
    (∀ t, parseWhere (negatedText a) = .ok t ↔ t = .unary .not e ∧ Enclosable a e) ∧
    ∃ ts, tokenize a = .ok ts ∧ Balanced ts ∧
      ∀ before behind us vs, tokenize before = .ok us → tokenize behind = .ok vs →
        ∃ all, tokenize (before ++ enclosed a ++ behind) = .ok all ∧
          all.map Token.bare = us.map Token.bare ++ enclosedWords (ts.map Token.bare)
            ++ vs.map Token.bare := by
  refine ⟨fun c t => parseWhere_joined c ha hb, fun t => parseWhere_negated ha, ?_⟩
  obtain ⟨ts, hts, hw⟩ := parseWhere_eq_ok.mp ha
  refine ⟨ts, hts, hw.derives.balanced, fun before behind us vs hus hvs => ?_⟩
  have hlexes := lexes_around (lexes_of_tokenize hus) (lexes_of_tokenize hvs)
    (lexes_of_tokenize hts)
  exact hlexes.tokenize

theorem parseWhere_encloses_nullTest :
    let a := "(A) is null".toList
    let b := "not B".toList
    let e : Expr := .unary .isNull (.property "A")
    let f : Expr := .unary .not (.property "B")
    parseWhere a = .ok e ∧ parseWhere b = .ok f ∧ Enclosable a e ∧ Enclosable b f ∧
      parseWhere "((A) is null) or (not B)".toList = .ok (.binary (.connective .or) e f) ∧
      parseWhere "not ((A) is null)".toList = .ok (.unary .not e) := by
  intro a b e f
  have ha : parseWhere a = .ok e := by rfl
  have hb : parseWhere b = .ok f := by rfl
  have hea : Enclosable a e := ⟨by decide, _, by rfl, (nested_length _).mono (by decide)⟩
  have heb : Enclosable b f := ⟨by decide, _, by rfl, (nested_length _).mono (by decide)⟩
  obtain ⟨hjoined, hnegated, _⟩ := parseWhere_encloses ha hb
  exact ⟨ha, hb, hea, heb, (hjoined .or _).mpr ⟨rfl, hea, heb⟩, (hnegated _).mpr ⟨rfl, hea⟩⟩

end RowFilter
