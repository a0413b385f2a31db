import RowFilter.Proofs.Quotation
import RowFilter.Proofs.Reading
import RowFilter.Proofs.Reparsed

namespace RowFilter

open Grammar

/-- A text with its percent signs and underscores doubled. -/
def doubleWildcards (text : List Char) : List Char :=
  Quoted.double '_' (Quoted.double '%' text)

/-- Escaping doubles what is doubled for patterns, and then the quotes. -/
theorem escapePattern_eq (text : List Char) :
    escapePattern text = escapeString (doubleWildcards text) := by
  simp only [escapePattern, escapeString, doubleWildcards]
  rw [Quoted.double_comm '%' '\'', Quoted.double_comm '_' '\'']

theorem doubleWildcards_eq_self_iff {text : List Char} :
    doubleWildcards text = text ↔ '%' ∉ text ∧ '_' ∉ text := by
  constructor
  · intro h
    -- Doubling adds a character for each wildcard, so texts of one length have none.
    have hlength := congrArg List.length h
    rw [doubleWildcards, Quoted.length_double, Quoted.length_double] at hlength
    have hpercent : '%' ∉ text := List.count_eq_zero.mp (by omega)
    rw [Quoted.double_of_not_mem hpercent] at hlength
    exact ⟨hpercent, List.count_eq_zero.mp (by omega)⟩
  · rintro ⟨hpercent, hunderscore⟩
    rw [doubleWildcards, Quoted.double_of_not_mem hpercent, Quoted.double_of_not_mem hunderscore]

/-- Each pattern describes the text that is spelled like it. -/
theorem Pattern.describes_self (pattern : List Char) : describes pattern pattern = true := by
  unfold describes
  split
  · split
    · exact decide_eq_true (pattern.tail.dropLast_prefix.isInfix.trans pattern.tail_suffix.isInfix)
    · exact decide_eq_true pattern.tail_suffix
  · split
    · exact decide_eq_true pattern.dropLast_prefix
    · exact decide_eq_true rfl

/-- A pattern test of a name, with the text escaped. -/
def escapedLike (name text : List Char) : List Char :=
  name ++ " like '".toList ++ escapePattern text ++ ['\'']

theorem escapedLike_eq (name text : List Char) :
    escapedLike name text = name ++ " like ".toList ++ quoted (doubleWildcards text) := by
  simp [escapedLike, escapePattern_eq, quoted]

def likeWords (name pattern : List Char) : List Token :=
  [⟨.identifier, name, .start⟩, Keyword.like.word, ⟨.string, quoted pattern, .start⟩]

theorem lexes_like {name : List Char} (hname : IsName name) (pattern : List Char) :
    Lexes (name ++ " like ".toList ++ quoted pattern) (likeWords name pattern) := by
  have hlike := (IsName.lexes hname).append (BinaryOp.lexes (.like false))
    (apart_right rfl (by decide) (by decide) (by decide))
  have hspace : (name ++ " like ".toList).getLast? = some ' ' := by
    rw [getLast?_append_of_ne_nil (by decide)]
    rfl
  exact hlike.append (lexeme_quoted pattern).lexes
    (apart_left hspace (by decide) (by decide) (by decide))

theorem derives_likeWords (name pattern : List Char) :
    Derives .expression (likeWords name pattern)
      (.binary (.like false) (.property (.ofList name)) (.literal (.string (.ofList pattern)))) := by
  have hproperty : Item [⟨.identifier, name, .start⟩] (.property (.ofList name)) := .property rfl
  have hliteral : IsLiteral ⟨.string, quoted pattern, .start⟩ _ := .string rfl
  rw [content_quoted] at hliteral
  have hleft : Derives .comparison _ _ := (Derives.item hproperty).mono (by decide)
  have hright : Derives .operand _ _ := (Derives.item (.literal hliteral)).mono (by decide)
  have hlike : Test [Keyword.like.word] (.like false) := .like rfl
  exact (hleft.test hlike hright).mono (by decide)

theorem parseWhere_like {name : List Char} (hname : IsName name) (pattern : List Char) :
    parseWhere (name ++ " like ".toList ++ quoted pattern)
      = .ok (.binary (.like false) (.property (.ofList name))
          (.literal (.string (.ofList pattern)))) := by
  have hflat : ∀ t ∈ likeWords name pattern, opens t = 0 := by
    simp [likeWords, opens, Keyword.word]
  exact (parseWhere_of_lexes (lexes_like hname pattern)).mpr
    ⟨derives_likeWords name pattern, by simp [Expr.height, maxDepth], nested_of_flat hflat⟩

theorem Pattern.describes_of_not_mem {pattern : List Char} (h : '%' ∉ pattern)
    (text : List Char) : describes pattern text = decide (text = pattern) := by
  have hhead : pattern.head? ≠ some '%' := fun hc => h (List.mem_of_head? hc)
  have hlast : pattern.getLast? ≠ some '%' := fun hc => h (List.mem_of_getLast? hc)
  rw [describes, if_neg hhead, if_neg hlast]

namespace Condition

variable {s : Schema} {name text : String} {i : Nat} {f : Field}

/-- The pattern test of an escaped text is accepted for each name of a string field. It asks for
what the doubled text describes, and this is the text alone just when nothing in it is doubled. -/
theorem escapedLike_asks_itself_iff (hname : IsName name.toList)
    (hf : s.resolve name = some (i, f)) (htype : f.type = .string) :
    ∃ e k, parseWhere (escapedLike name.toList text.toList) = .ok e ∧ ofExpr s e = .ok k ∧
      (∀ row v, row i = .string v →
        k.holds row = Pattern.describes (doubleWildcards text.toList) v.toList) ∧
      ((∀ row v, row i = .string v → (k.holds row = true ↔ v = text)) ↔
        '%' ∉ text.toList ∧ '_' ∉ text.toList) := by
  have hparse := parseWhere_like hname (doubleWildcards text.toList)
  rw [← escapedLike_eq, String.ofList_toList] at hparse
  have hholds : ∀ row v, row i = .string v →
      (patternTest i (.ofList (doubleWildcards text.toList))).holds row
        = Pattern.describes (doubleWildcards text.toList) v.toList := by
    intro row v hrow
    rw [patternTest_holds hf hrow, String.toList_ofList]
  refine ⟨_, _, hparse, ofExpr_like hf htype _, hholds, ?_⟩
  rw [← doubleWildcards_eq_self_iff]
  constructor
  · intro h
    -- The doubled text passes its own test, so it can only be the text.
    have hself := hholds (fun _ => .string (.ofList (doubleWildcards text.toList))) _ rfl
    rw [String.toList_ofList, Pattern.describes_self] at hself
    have heq := (h _ _ rfl).mp hself
    rw [← String.toList_inj, String.toList_ofList] at heq
    exact heq
  · intro hdouble row v hrow
    have hpercent := (doubleWildcards_eq_self_iff.mp hdouble).1
    rw [hholds row v hrow, hdouble, Pattern.describes_of_not_mem hpercent, decide_eq_true_iff,
      String.toList_inj]

theorem escapedLike_asks_itself_iff_note :
    let s : Schema := ⟨[⟨"Qty", .integer .i32, false⟩, ⟨"Note", .string, true⟩]⟩
    IsName "note".toList ∧ s.resolve "note" = some (1, ⟨"Note", .string, true⟩) ∧
      ∃ e k, parseWhere (escapedLike "note".toList "'50%'".toList) = .ok e ∧ ofExpr s e = .ok k ∧
        (∀ row v, row 1 = .string v →
          k.holds row = Pattern.describes (doubleWildcards "'50%'".toList) v.toList) ∧
        ((∀ row v, row 1 = .string v → (k.holds row = true ↔ v = "'50%'")) ↔
          '%' ∉ "'50%'".toList ∧ '_' ∉ "'50%'".toList) := by
  intro s
  have hname : IsName "note".toList := ⟨by decide, List.all_eq_true.mp rfl, by decide⟩
  have hf : s.resolve "note" = some (1, ⟨"Note", .string, true⟩) := by rfl
  exact ⟨hname, hf, escapedLike_asks_itself_iff hname hf rfl⟩

/-- The underscore of `a_b` comes back as two, so that the text does not pass its own test. -/
theorem escapedLike_misses_underscore :
    let s : Schema := ⟨[⟨"F", .string, false⟩]⟩
    s.resolve "F" = some (0, ⟨"F", .string, false⟩) ∧
      escapedLike "F".toList "a_b".toList = "F like 'a__b'".toList ∧
      ∃ e k, parseWhere (escapedLike "F".toList "a_b".toList) = .ok e ∧ ofExpr s e = .ok k ∧
        k.holds (fun _ => .string "a_b") = false ∧ k.holds (fun _ => .string "a__b") = true := by
  intro s
  have hname : IsName "F".toList := ⟨by decide, by simp, by decide⟩
  have hf : s.resolve "F" = some (0, ⟨"F", .string, false⟩) := by rfl
  have hparse := parseWhere_like hname (doubleWildcards "a_b".toList)
  rw [← escapedLike_eq] at hparse
  exact ⟨hf, by decide, _, _, hparse, ofExpr_like hf rfl _, by decide, by decide⟩

end Condition

end RowFilter
