import RowFilter.Expr.Sql
import RowFilter.Proofs.DecimalText
import RowFilter.Proofs.Grammar
import RowFilter.Proofs.Lexed

namespace RowFilter

/-- A name that the lexer takes as one, and not as a keyword. -/
def IsName : List Char → Prop
  | [] => False
  | c :: cs => startsName c = true ∧ (∀ d ∈ cs, continuesName d = true) ∧
      Keyword.ofWord? (c :: cs) = none

theorem Lexeme.isName {text : List Char} (h : Lexeme .identifier text) : IsName text := by
  generalize hkind : TokenKind.identifier = kind at h
  cases h with
  | word hc hcs =>
    refine ⟨hc, hcs, ?_⟩
    unfold wordKind at hkind
    split at hkind
    next => cases hkind
    next hword => exact hword
  | _ => cases hkind

/-- A literal whose SQL is one token: its numbers have no sign, and its strings no quotes. -/
def Literal.Plain : Literal → Prop
  | string s => '\'' ∉ s.toList
  | number d => 0 ≤ d.coefficient
  | _ => True

/-- A tree whose names and literals are plain. -/
def Expr.Plain : Expr → Prop
  | property name => IsName name.toList
  | literal l => l.Plain
  | array ls => ∀ l ∈ ls, l.Plain
  | unary _ e => e.Plain
  | binary _ l r => l.Plain ∧ r.Plain

def Mark.word (m : Mark) : Token :=
  ⟨.mark m, m.spelling, .start⟩

def Keyword.word (k : Keyword) : Token :=
  ⟨.keyword k, k.spelling, .start⟩

def Literal.word (l : Literal) : Token :=
  match l with
  | null => Keyword.null.word
  | boolean _ => ⟨.number, l.sql, .start⟩
  | number _ => ⟨.number, l.sql, .start⟩
  | string _ => ⟨.string, l.sql, .start⟩

def Literal.listWords : List Literal → List Token
  | [] => []
  | [l] => [l.word]
  | l :: m :: ls => l.word :: Mark.comma.word :: listWords (m :: ls)

def BinaryOp.words : BinaryOp → List Token
  | comparison c => [c.mark.word]
  | connective c => [c.keyword.word]
  | like false => [Keyword.like.word]
  | like true => [Keyword.not.word, Keyword.like.word]
  | among false => [Keyword.among.word]
  | among true => [Keyword.not.word, Keyword.among.word]

theorem BinaryOp.eq_connective {op : BinaryOp} (h : op.isConnective = true) :
    ∃ c, op = .connective c := by
  cases op with
  | connective c => exact ⟨c, rfl⟩
  | _ => cases h

namespace Expr

theorem isBinary_of_isConnective {e : Expr} (h : e.isConnective = true) : e.isBinary = true := by
  cases e with
  | binary op l r => rfl
  | _ => cases h

def groupedWords (group : Bool) (words : List Token) : List Token :=
  if group then Mark.openParen.word :: words ++ [Mark.closeParen.word] else words

def words : Expr → List Token
  | property name => [⟨.identifier, name.toList, .start⟩]
  | literal l => [l.word]
  | array ls => Mark.openParen.word :: Literal.listWords ls ++ [Mark.closeParen.word]
  | unary .not e => Keyword.not.word :: groupedWords e.isBinary e.words
  | unary .isNull e => groupedWords e.isBinary e.words ++ [Keyword.is.word, Keyword.null.word]
  | unary .isNotNull e => groupedWords e.isBinary e.words
      ++ [Keyword.is.word, Keyword.not.word, Keyword.null.word]
  | binary op l r => groupedWords (needsGroup op l) l.words ++ op.words
      ++ groupedWords (needsGroup op r) r.words

theorem words_connective (c : Connective) (l r : Expr) : (binary (.connective c) l r).words =
    groupedWords l.isConnective l.words ++ [c.keyword.word] ++
      groupedWords r.isConnective r.words := rfl

theorem words_of_not_connective {op : BinaryOp} (h : op.isConnective = false) (l r : Expr) :
    (binary op l r).words = groupedWords l.isBinary l.words ++ op.words ++
      groupedWords r.isBinary r.words := by
  simp [words, needsGroup, h]

section Parts

variable {ε : Type} {column : String → Except ε (List Char)} {text : List Char}

theorem toSql_unary_eq_ok {refuse : TypeMismatch → Except ε (List Char)} {op : UnaryOp} {e : Expr} :
    (unary op e).toSql column refuse = .ok text ↔
      ∃ inner, e.toSql column refuse = .ok inner ∧
        unarySql op (grouped e.isBinary inner) = text := by
  rw [toSql, bind_eq_ok]
  simp only [pure_eq_ok]

theorem toSql_binary_eq_ok {cause : TypeMismatch → ε} {op : BinaryOp} {l r : Expr} :
    (binary op l r).toSql column (fun m => .error (cause m)) = .ok text ↔
      lacksArray op r = false ∧ ∃ left right,
        l.toSql column (fun m => .error (cause m)) = .ok left ∧
        r.toSql column (fun m => .error (cause m)) = .ok right ∧
        grouped (needsGroup op l) left ++ (' ' :: op.sql ++ [' '])
          ++ grouped (needsGroup op r) right = text := by
  cases h : lacksArray op r with
  | true => simp [toSql_refused h]
  | false =>
    rw [toSql_binary h, bind_eq_ok]
    simp only [bind_eq_ok, pure_eq_ok, true_and, exists_and_left]

end Parts

theorem plainSql_unary {op : UnaryOp} {e : Expr} {text : List Char} :
    (unary op e).plainSql = .ok text ↔
      ∃ inner, e.plainSql = .ok inner ∧ unarySql op (grouped e.isBinary inner) = text :=
  toSql_unary_eq_ok

theorem plainSql_binary {op : BinaryOp} {l r : Expr} {text : List Char} :
    (binary op l r).plainSql = .ok text ↔ lacksArray op r = false ∧
      ∃ left right, l.plainSql = .ok left ∧ r.plainSql = .ok right ∧
        grouped (needsGroup op l) left ++ (' ' :: op.sql ++ [' '])
          ++ grouped (needsGroup op r) right = text :=
  toSql_binary_eq_ok

end Expr

theorem pair_of_spelling {m : Mark} {x y : Char} (h : m.spelling = [x, y]) :
    (x = '<' ∨ x = '>') ∧ (y = '=' ∨ y = '>') := by
  have h := h.symm
  cases m <;> simp_all [Mark.spelling]

theorem seam_left {x y : Char} (hx : isDelimiter x = true) (hless : x ≠ '<') (hgreater : x ≠ '>') :
    Seam x y :=
  ⟨.inl hx, fun _ hm => (pair_of_spelling hm).1.elim hless hgreater⟩

theorem seam_right {x y : Char} (hy : isDelimiter y = true) (hequal : y ≠ '=')
    (hgreater : y ≠ '>') : Seam x y :=
  ⟨.inr hy, fun _ hm => (pair_of_spelling hm).2.elim hequal hgreater⟩

/-- A text that ends in a delimiter other than `<` and `>` stays apart from any other. -/
theorem apart_left {a b : List Char} {x : Char} (h : a.getLast? = some x)
    (hx : isDelimiter x = true) (hless : x ≠ '<') (hgreater : x ≠ '>') : Apart a b := by
  intro z hz y _
  obtain rfl := Option.some.inj (h.symm.trans hz)
  exact seam_left hx hless hgreater

theorem apart_right {a b : List Char} {y : Char} (h : b.head? = some y)
    (hy : isDelimiter y = true) (hequal : y ≠ '=') (hgreater : y ≠ '>') : Apart a b := by
  intro x _ z hz
  obtain rfl := Option.some.inj (h.symm.trans hz)
  exact seam_right hy hequal hgreater

theorem Literal.Plain.lexeme {l : Literal} (h : l.Plain) : Lexeme l.word.kind l.sql := by
  cases l with
  | null => exact @Lexeme.word 'n' ['u', 'l', 'l'] (by decide) (List.all_eq_true.mp rfl)
  | boolean b => cases b <;> exact .number (.whole (by decide) (List.all_eq_true.mp rfl))
  | number d => exact .number (Decimal.numeral_text h)
  | string s =>
    have hdouble : Quoted.double '\'' s.toList = s.toList := Quoted.double_of_not_mem h
    have hlexeme := Lexeme.string s.toList
    rw [Quoted.enclose, hdouble] at hlexeme
    exact hlexeme

theorem Literal.Plain.lexes {l : Literal} (h : l.Plain) : Lexes l.sql [l.word] := by
  have hlexes := h.lexeme.lexes
  cases l <;> exact hlexes

theorem IsName.lexeme {name : List Char} (h : IsName name) : Lexeme .identifier name := by
  cases name with
  | nil => exact h.elim
  | cons c cs =>
    obtain ⟨hc, hcs, hkeyword⟩ := h
    have hlexeme := Lexeme.word hc hcs
    have hkind : wordKind (c :: cs) = .identifier := by simp [wordKind, hkeyword]
    rwa [hkind] at hlexeme

theorem IsName.lexes {name : List Char} (h : IsName name) :
    Lexes name [⟨.identifier, name, .start⟩] :=
  h.lexeme.lexes

theorem Mark.lexes (m : Mark) : Lexes m.spelling [m.word] :=
  (Lexeme.mark m).lexes

theorem Literal.lexes_list {ls : List Literal} (h : ∀ l ∈ ls, l.Plain) :
    Lexes ([','].intercalate (ls.map Literal.sql)) (listWords ls) := by
  induction ls with
  | nil => exact fun p => ⟨[], .done (by simp), rfl⟩
  | cons l ls ih =>
    have hl := (h l (by simp)).lexes
    cases ls with
    | nil => simpa [listWords] using hl
    | cons m ls =>
      have hrest := ih fun k hk => h k (by simp [hk])
      have hcomma := hl.append (Mark.lexes .comma)
        (apart_right rfl (by decide) (by decide) (by decide))
      have hall := hcomma.append hrest
        (apart_left List.getLast?_concat (by decide) (by decide) (by decide))
      simpa [listWords, Mark.spelling] using hall

theorem Expr.lexes_grouped {text : List Char} {ws : List Token} (group : Bool)
    (h : Lexes text ws) : Lexes (grouped group text) (groupedWords group ws) := by
  cases group with
  | false => exact h
  | true =>
    have hopen := (Mark.lexes .openParen).append h
      (apart_left rfl (by decide) (by decide) (by decide))
    exact hopen.append (Mark.lexes .closeParen)
      (apart_right rfl (by decide) (by decide) (by decide))

theorem BinaryOp.lexes (op : BinaryOp) : Lexes (' ' :: op.sql ++ [' ']) op.words := by
  cases op with
  | comparison c => cases c <;> exact lexes_of_words rfl
  | connective c => cases c <;> exact lexes_of_words rfl
  | like negated => cases negated <;> exact lexes_of_words rfl
  | among negated => cases negated <;> exact lexes_of_words rfl

/-- What is written for a plain tree has the words of the tree. -/
theorem Expr.Plain.lexes {e : Expr} (h : e.Plain) {text : List Char}
    (htext : e.plainSql = .ok text) : Lexes text e.words := by
  induction e generalizing text with
  | property name =>
    obtain rfl := Except.ok.inj htext
    exact IsName.lexes h
  | literal l =>
    obtain rfl := Except.ok.inj htext
    exact Literal.Plain.lexes h
  | array ls =>
    obtain rfl := Except.ok.inj htext
    exact lexes_grouped true (Literal.lexes_list h)
  | unary op e ih =>
    obtain ⟨inner, hinner, rfl⟩ := plainSql_unary.mp htext
    have hgrouped := lexes_grouped e.isBinary (ih h hinner)
    cases op with
    | not =>
      have hnot : Lexes "not ".toList [Keyword.not.word] := lexes_of_words rfl
      exact hnot.append hgrouped (apart_left rfl (by decide) (by decide) (by decide))
    | isNull =>
      have hnull : Lexes " is null".toList [Keyword.is.word, Keyword.null.word] :=
        lexes_of_words rfl
      exact hgrouped.append hnull (apart_right rfl (by decide) (by decide) (by decide))
    | isNotNull =>
      have hnull : Lexes " is not null".toList
          [Keyword.is.word, Keyword.not.word, Keyword.null.word] := lexes_of_words rfl
      exact hgrouped.append hnull (apart_right rfl (by decide) (by decide) (by decide))
  | binary op l r ihl ihr =>
    obtain ⟨_, left, right, hleft, hright, rfl⟩ := plainSql_binary.mp htext
    have hl := lexes_grouped (needsGroup op l) (ihl h.1 hleft)
    have hr := lexes_grouped (needsGroup op r) (ihr h.2 hright)
    have hop := hl.append op.lexes (apart_right rfl (by decide) (by decide) (by decide))
    have hspace : (grouped (needsGroup op l) left ++ (' ' :: op.sql ++ [' '])).getLast? =
        some ' ' := by
      rw [getLast?_append_of_ne_nil (by simp)]
      exact List.getLast?_concat
    exact hop.append hr (apart_left hspace (by decide) (by decide) (by decide))

end RowFilter
