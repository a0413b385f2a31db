import RowFilter.Proofs.Sense
import RowFilter.Proofs.Written

namespace RowFilter

open Grammar

/-- A boolean as the bit that SQL has for it. -/
def Literal.spellBit : Literal → Literal
  | boolean true => number .one
  | boolean false => number .zero
  | l => l

def Expr.spellBits : Expr → Expr
  | property name => property name
  | literal l => literal l.spellBit
  | array ls => array (ls.map Literal.spellBit)
  | unary op e => unary op e.spellBits
  | binary op l r => binary op l.spellBits r.spellBits

/-- Whether an operand that stands without parentheses would not be read as the operand. -/
def UnaryOp.clashes : UnaryOp → Expr → Bool
  | not, .unary .. => true
  | isNull, .unary isNull _ => true
  | isNull, .unary isNotNull _ => true
  | isNotNull, .unary isNull _ => true
  | isNotNull, .unary isNotNull _ => true
  | _, _ => false

def BinaryOp.isAmong : BinaryOp → Bool
  | among _ => true
  | _ => false

/-- A tree without membership tests and arrays in which no unary operator clashes with its
operand. -/
def Expr.Faithful : Expr → Prop
  | property _ => True
  | literal _ => True
  | array _ => False
  | unary op e => op.clashes e = false ∧ e.Faithful
  | binary op l r => op.isAmong = false ∧ l.Faithful ∧ r.Faithful

namespace Grammar

def Layer.rank : Layer → Nat
  | factor => 0
  | negation => 1
  | operand => 2
  | comparison => 3
  | expression => 4

/-- What a layer derives is also derived by the layers around it. -/
theorem Derives.mono {a b : Layer} {ts : List Token} {e : Expr} (h : Derives a ts e)
    (hab : a.rank ≤ b.rank) : Derives b ts e := by
  have hnegation : a.rank ≤ 1 → Derives .negation ts e := by
    intro hle
    cases a with
    | factor => exact .factor h
    | negation => exact h
    | _ => simp [Layer.rank] at hle
  have hoperand : a.rank ≤ 2 → Derives .operand ts e := by
    intro hle
    by_cases hlow : a.rank ≤ 1
    · exact .negation (hnegation hlow)
    · cases a with
      | operand => exact h
      | _ => simp [Layer.rank] at hle hlow
  have hcomparison : a.rank ≤ 3 → Derives .comparison ts e := by
    intro hle
    by_cases hlow : a.rank ≤ 2
    · exact .operand (hoperand hlow)
    · cases a with
      | comparison => exact h
      | _ => simp [Layer.rank] at hle hlow
  cases b with
  | factor =>
    cases a with
    | factor => exact h
    | _ => simp [Layer.rank] at hab
  | negation => exact hnegation hab
  | operand => exact hoperand hab
  | comparison => exact hcomparison hab
  | expression =>
    by_cases hlow : a.rank ≤ 3
    · exact .comparison (hcomparison hlow)
    · cases a with
      | expression => exact h
      | _ => simp [Layer.rank] at hlow

theorem Item.derives {ts : List Token} {e : Expr} (h : Item ts e) (layer : Layer) :
    Derives layer ts e :=
  (Derives.item h).mono (Nat.zero_le _)

end Grammar

/-- The innermost layer that derives what is written for a tree. -/
def Expr.layer : Expr → Layer
  | property _ => .factor
  | literal _ => .factor
  | array _ => .factor
  | unary .not _ => .negation
  | unary .isNull _ => .operand
  | unary .isNotNull _ => .operand
  | binary op _ _ => if op.isConnective then .expression else .comparison

theorem Expr.layer_le_operand {e : Expr} (h : e.isBinary = false) :
    e.layer.rank ≤ Layer.operand.rank := by
  cases e with
  | unary op e => cases op <;> simp [layer, Layer.rank]
  | binary op l r => cases h
  | _ => simp [layer, Layer.rank]

theorem Expr.layer_le_comparison {e : Expr} (h : e.isConnective = false) :
    e.layer.rank ≤ Layer.comparison.rank := by
  cases e with
  | unary op e => cases op <;> simp [layer, Layer.rank]
  | binary op l r =>
    have hop : op.isConnective = false := h
    simp [layer, Layer.rank, hop]
  | _ => simp [layer, Layer.rank]

theorem Expr.layer_le_negation {op : UnaryOp} {e : Expr} (hop : op ≠ .not)
    (hbinary : e.isBinary = false) (h : op.clashes e = false) :
    e.layer.rank ≤ Layer.negation.rank := by
  cases e with
  | unary inner e => cases op <;> cases inner <;> simp_all [layer, Layer.rank, UnaryOp.clashes]
  | binary _ l r => cases hbinary
  | _ => simp [layer, Layer.rank]

theorem Expr.layer_le_factor {e : Expr} (hbinary : e.isBinary = false)
    (h : UnaryOp.not.clashes e = false) : e.layer.rank ≤ Layer.factor.rank := by
  cases e with
  | unary inner e => cases h
  | binary _ l r => cases hbinary
  | _ => simp [layer, Layer.rank]

/-- Parentheses put a tree into every layer. -/
theorem Grammar.Derives.grouped {layer below : Layer} {ws : List Token} {e : Expr} {group : Bool}
    (h : Derives below ws e) (hbelow : group = false → below.rank ≤ layer.rank) :
    Derives layer (Expr.groupedWords group ws) e := by
  cases group with
  | false => exact h.mono (hbelow rfl)
  | true =>
    have hexpression : Derives .expression ws e := h.mono (by cases below <;> simp [Layer.rank])
    have hparens : Derives .factor (Mark.openParen.word :: ws ++ [Mark.closeParen.word]) e :=
      .parens rfl hexpression rfl
    exact hparens.mono (Nat.zero_le _)

theorem BinaryOp.test_words {op : BinaryOp} (h : op.isConnective = false) : Test op.words op := by
  cases op with
  | comparison c => exact .comparison c rfl
  | connective c => cases h
  | like negated =>
    cases negated with
    | false => exact .like rfl
    | true => exact .notLike rfl rfl
  | among negated =>
    cases negated with
    | false => exact .among rfl
    | true => exact .notAmong rfl rfl

theorem Literal.Plain.isLiteral {l : Literal} (h : l.Plain) : IsLiteral l.word l.spellBit := by
  cases l with
  | null => exact .null rfl
  | boolean b => cases b <;> exact .number rfl rfl
  | number d => exact .number rfl (Decimal.read?_text d)
  | string s =>
    have hcontent : Quoted.content '\'' ('\'' :: s.toList ++ ['\'']) = s.toList := by
      have hround := Quoted.content_enclose '\'' s.toList
      rwa [Quoted.enclose, Quoted.double_of_not_mem h] at hround
    have hliteral : IsLiteral (Literal.string s).word _ := .string rfl
    rwa [Literal.word, Literal.sql, hcontent, String.ofList_toList] at hliteral

/-- The words of a faithful tree derive it, with its booleans as bits. -/
theorem Expr.derives_words {e : Expr} (hplain : e.Plain) (hfaithful : e.Faithful) :
    Derives e.layer e.words e.spellBits := by
  induction e with
  | property name =>
    have hitem : Item [⟨.identifier, name.toList, .start⟩] (property (.ofList name.toList)) :=
      .property rfl
    rw [String.ofList_toList] at hitem
    exact .item hitem
  | literal l => exact .item (.literal (Literal.Plain.isLiteral hplain))
  | array ls => exact hfaithful.elim
  | unary op e ih =>
    obtain ⟨hclash, he⟩ := hfaithful
    have hder := ih hplain he
    cases op with
    | not => exact .not rfl (hder.grouped fun hb => layer_le_factor hb hclash)
    | isNull =>
      exact .isNull (hder.grouped fun hb => layer_le_negation (by decide) hb hclash) rfl rfl
    | isNotNull =>
      exact .isNotNull (hder.grouped fun hb => layer_le_negation (by decide) hb hclash) rfl rfl rfl
  | binary op l r ihl ihr =>
    obtain ⟨_, hl, hr⟩ := hfaithful
    have hleft := ihl hplain.1 hl
    have hright := ihr hplain.2 hr
    cases hop : op.isConnective with
    | false =>
      have hlayer : (binary op l r).layer = .comparison := by simp [layer, hop]
      rw [hlayer, words_of_not_connective hop]
      refine .test (hleft.grouped fun hb => ?_) (BinaryOp.test_words hop)
        (hright.grouped fun hb => layer_le_operand hb)
      exact Nat.le_succ_of_le (layer_le_operand hb)
    | true =>
      obtain ⟨c, rfl⟩ := BinaryOp.eq_connective hop
      rw [words_connective]
      refine .connective (hleft.grouped fun hb => ?_) rfl
        (hright.grouped fun hb => layer_le_comparison hb)
      exact Nat.le_succ_of_le (layer_le_comparison hb)

theorem Literal.flat_word (l : Literal) : opens l.word = 0 := by
  cases l <;> simp [word, opens, Keyword.word]

theorem Literal.flat_listWords (ls : List Literal) : ∀ t ∈ listWords ls, opens t = 0 := by
  induction ls with
  | nil => simp [listWords]
  | cons l ls ih =>
    cases ls with
    | nil => simpa [listWords] using l.flat_word
    | cons m ls =>
      simp only [listWords, List.mem_cons, forall_eq_or_imp]
      exact ⟨l.flat_word, rfl, ih⟩

theorem BinaryOp.flat_words (op : BinaryOp) : ∀ t ∈ op.words, opens t = 0 := by
  cases op with
  | comparison c => cases c <;> decide
  | connective c => cases c <;> decide
  | like negated => cases negated <;> decide
  | among negated => cases negated <;> decide

namespace Expr

theorem balanced_grouped {ws : List Token} (group : Bool) (h : Balanced ws) :
    Balanced (groupedWords group ws) := by
  cases group with
  | false => exact h
  | true => exact h.parens rfl rfl

theorem balanced_words (e : Expr) : Balanced e.words := by
  induction e with
  | property name => exact balanced_of_flat (by simp [words, opens])
  | literal l => exact balanced_of_flat (List.forall_mem_singleton.mpr l.flat_word)
  | array ls => exact (balanced_of_flat (Literal.flat_listWords ls)).parens rfl rfl
  | unary op e ih =>
    have hgrouped := balanced_grouped e.isBinary ih
    cases op with
    | not =>
      have hnot : Balanced [Keyword.not.word] := balanced_of_flat (by decide)
      exact hnot.append hgrouped
    | isNull => exact hgrouped.append (balanced_of_flat (by decide))
    | isNotNull => exact hgrouped.append (balanced_of_flat (by decide))
  | binary op l r ihl ihr =>
    have hleft := (balanced_grouped (needsGroup op l) ihl).append (balanced_of_flat op.flat_words)
    exact hleft.append (balanced_grouped (needsGroup op r) ihr)

theorem nested_grouped {ws : List Token} {room : Nat} (group : Bool) (hbalanced : Balanced ws)
    (h : Nested room ws) : Nested (room + 1) (groupedWords group ws) := by
  cases group with
  | false => exact h.mono (Nat.le_succ room)
  | true => exact (nested_parens rfl rfl hbalanced.depth_eq).mpr ⟨room, rfl, h⟩

/-- There are fewer parentheses open in what is written for a tree than the tree has levels. -/
theorem nested_words (e : Expr) : Nested e.height e.words := by
  induction e with
  | property name => exact nested_of_flat (by simp [words, opens])
  | literal l => exact nested_of_flat (List.forall_mem_singleton.mpr l.flat_word)
  | array ls =>
    have hflat := Literal.flat_listWords ls
    exact (nested_parens rfl rfl (depth_of_flat hflat)).mpr ⟨0, rfl, nested_of_flat hflat⟩
  | unary op e ih =>
    have hgrouped := nested_grouped e.isBinary e.balanced_words ih
    have hzero := (balanced_grouped e.isBinary e.balanced_words).depth_eq
    cases op with
    | not => exact (nested_cons_of_flat rfl).mpr hgrouped
    | isNull => exact (nested_append hzero).mpr ⟨hgrouped, nested_of_flat (by decide)⟩
    | isNotNull => exact (nested_append hzero).mpr ⟨hgrouped, nested_of_flat (by decide)⟩
  | binary op l r ihl ihr =>
    have hheight : (binary op l r).height = max l.height r.height + 1 := rfl
    have hleft := nested_grouped (needsGroup op l) l.balanced_words ihl
    have hright := nested_grouped (needsGroup op r) r.balanced_words ihr
    have hbalanced := balanced_grouped (needsGroup op l) l.balanced_words
    have hop := balanced_of_flat op.flat_words
    refine (nested_append (hbalanced.append hop).depth_eq).mpr ⟨?_, hright.mono (by omega)⟩
    exact (nested_append hbalanced.depth_eq).mpr
      ⟨hleft.mono (by omega), nested_of_flat op.flat_words⟩

theorem height_spellBits (e : Expr) : e.spellBits.height = e.height := by
  induction e with
  | unary op e ih => simp [spellBits, height, ih]
  | binary op l r ihl ihr => simp [spellBits, height, ihl, ihr]
  | _ => rfl

theorem plainSql_of_faithful {e : Expr} (h : e.Faithful) : ∃ text, e.plainSql = .ok text := by
  induction e with
  | property name => exact ⟨_, rfl⟩
  | literal l => exact ⟨_, rfl⟩
  | array ls => exact ⟨_, rfl⟩
  | unary op e ih =>
    obtain ⟨inner, hinner⟩ := ih h.2
    exact ⟨_, plainSql_unary.mpr ⟨inner, hinner, rfl⟩⟩
  | binary op l r ihl ihr =>
    obtain ⟨hop, hl, hr⟩ := h
    obtain ⟨left, hleft⟩ := ihl hl
    obtain ⟨right, hright⟩ := ihr hr
    have harray : lacksArray op r = false := by
      cases op with
      | among negated => cases hop
      | _ => rfl
    exact ⟨_, plainSql_binary.mpr ⟨harray, left, right, hleft, hright, rfl⟩⟩

/-- What is written for a plain tree is read as a tree if its words derive that tree. -/
theorem parseWhere_plainSql {e f : Expr} {text : List Char} (hplain : e.Plain)
    (htext : e.plainSql = .ok text) (hheight : e.height ≤ maxDepth) (hf : f.height = e.height) :
    parseWhere text = .ok f ↔ Derives .expression e.words f := by
  rw [parseWhere_of_lexes (hplain.lexes htext)]
  constructor
  · exact fun h => h.derives
  · intro h
    exact ⟨h, by omega, e.nested_words.mono hheight⟩

theorem expression_of_words {e : Expr} (hplain : e.Plain) (hfaithful : e.Faithful) :
    Derives .expression e.words e.spellBits := by
  have htop : e.layer.rank ≤ Layer.expression.rank := by cases e.layer <;> decide
  exact (derives_words hplain hfaithful).mono htop

/-- SQL is read back as the tree it was written for, with bits for booleans. -/
theorem plainSql_reads_back {e : Expr} (hplain : e.Plain) (hfaithful : e.Faithful)
    (hheight : e.height ≤ maxDepth) :
    ∃ text, e.plainSql = .ok text ∧ parseWhere text = .ok e.spellBits := by
  obtain ⟨text, htext⟩ := plainSql_of_faithful hfaithful
  have hderives := expression_of_words hplain hfaithful
  exact ⟨text, htext, (parseWhere_plainSql hplain htext hheight e.height_spellBits).mpr hderives⟩

/-- `not (A = true or 'x' <> A) and A is null` -/
theorem plainSql_reads_back_connectives :
    let e : Expr := .binary (.connective .and)
      (.unary .not (.binary (.connective .or)
        (.binary (.comparison .equal) (.property "A") (.literal (.boolean true)))
        (.binary (.comparison .notEqual) (.literal (.string "x")) (.property "A"))))
      (.unary .isNull (.property "A"))
    e.Plain ∧ e.Faithful ∧ e.height ≤ maxDepth ∧
      ∃ text, e.plainSql = .ok text ∧ parseWhere text = .ok e.spellBits := by
  intro e
  have hname : IsName "A".toList := ⟨by decide, by simp, by decide⟩
  have hstring : '\'' ∉ "x".toList := by decide
  have hplain : e.Plain := ⟨⟨⟨hname, trivial⟩, hstring, hname⟩, hname⟩
  have hfaithful : e.Faithful :=
    ⟨rfl, ⟨rfl, rfl, ⟨rfl, trivial, trivial⟩, rfl, trivial, trivial⟩, rfl, trivial⟩
  have hheight : e.height ≤ maxDepth := by decide
  exact ⟨hplain, hfaithful, hheight, plainSql_reads_back hplain hfaithful hheight⟩

end Expr

end RowFilter
