import RowFilter.Expr.CallForm
import RowFilter.Proofs.Legible

namespace RowFilter

def UnaryOp.all : List UnaryOp :=
  [not, isNull, isNotNull]

def BinaryOp.all : List BinaryOp :=
  [comparison .equal, comparison .notEqual, comparison .less, comparison .lessOrEqual,
    comparison .greater, comparison .greaterOrEqual, connective .and, connective .or,
    like false, like true, among false, among true]

/-- The kind of token that a literal is. -/
def Literal.kind : Literal → TokenKind
  | null => .keyword .null
  | boolean true => .keyword .yes
  | boolean false => .keyword .no
  | number _ => .number
  | string _ => .string

/-- What follows a part of a call: nothing, a comma or the closing parenthesis. -/
def Closes (rest : List Char) : Prop :=
  ∀ y ∈ rest.head?, y = ',' ∨ y = ')'

/-- A delimiter ends all tokens but marks. -/
theorem ends_of_delimiter {kind : TokenKind} {y : Char} (hkind : ∀ m, kind ≠ .mark m)
    (hy : isDelimiter y = true) : Ends kind y := by
  obtain ⟨_, hname, hquote⟩ := not_word_of_isDelimiter hy
  cases kind with
  | identifier => exact hname
  | string => exact hquote
  | number => exact hy
  | keyword k => exact hname
  | mark m => exact absurd rfl (hkind m)

theorem Literal.Legible.lexeme {l : Literal} (h : l.Legible) : Lexeme l.kind l.text := by
  cases l with
  | null => exact @Lexeme.word 'n' ['u', 'l', 'l'] (by decide) (List.all_eq_true.mp rfl)
  | boolean b =>
    cases b with
    | false => exact @Lexeme.word 'f' ['a', 'l', 's', 'e'] (by decide) (List.all_eq_true.mp rfl)
    | true => exact @Lexeme.word 't' ['r', 'u', 'e'] (by decide) (List.all_eq_true.mp rfl)
  | number d => exact .number (Decimal.numeral_text h)
  | string s => exact .string s.toList

/-- A literal is read as itself. -/
theorem Literal.literal?_text (l : Literal) (p : Position) :
    Reader.literal? ⟨l.kind, l.text, p⟩ = some (some l) := by
  cases l with
  | null => rfl
  | boolean b => cases b <;> rfl
  | number d => simp [Reader.literal?, kind, text, Decimal.read?_text]
  | string s => simp [Reader.literal?, kind, text, Quoted.content_enclose]

/-- What is first to be seen of a tree. -/
inductive CallHead
  | property (name : List Char)
  | literal (l : Literal)
  | array
  | unary (op : UnaryOp)
  | binary (op : BinaryOp)

namespace CallHead

/-- The operator whose calls have a name. -/
def ofName? (name : List Char) : Option CallHead :=
  match UnaryOp.all.find? fun op => op.callName.toList = name with
  | some op => some (.unary op)
  | none => (BinaryOp.all.find? fun op => op.callName.toList = name).map .binary

/-- Reads the head whose first token is `t`, with `rest` behind it. -/
def ofToken? (t : Token) (rest : List Char) : Option (CallHead × List Char) :=
  if t.kind = .mark .openParen then some (.array, rest)
  else
    match rest with
    | '(' :: behind => (ofName? t.text).map (·, behind)
    | _ =>
      if t.kind = .identifier then some (.property t.text, rest)
      else
        match Reader.literal? t with
        | some (some l) => some (.literal l, rest)
        | _ => none

/-- Reads the head of a tree in call form. What begins with no token is a quoted name. -/
def read? : List Char → Option (CallHead × List Char)
  | [] => none
  | c :: cs =>
    match readToken c cs .start with
    | .ok (t, rest) => ofToken? t rest
    | .error _ =>
      (splitQuoted (cs.drop "Properties['".length)).map fun (body, rest) =>
        (.property (Quoted.undouble '\'' body.dropLast), rest.drop 1)

theorem ofName?_unary (op : UnaryOp) : ofName? op.callName.toList = some (.unary op) := by
  cases op <;> rfl

theorem ofName?_binary (op : BinaryOp) : ofName? op.callName.toList = some (.binary op) := by
  cases op with
  | comparison c => cases c <;> rfl
  | connective c => cases c <;> rfl
  | like negated => cases negated <;> rfl
  | among negated => cases negated <;> rfl

variable {kind : TokenKind} {word rest : List Char} {l : Literal}

theorem read?_token (h : Lexeme kind word) (hrest : ∀ y ∈ rest.head?, Ends kind y) :
    read? (word ++ rest) = ofToken? ⟨kind, word, .start⟩ rest := by
  obtain ⟨c, cs, rfl, _⟩ := h.head
  have htoken : readToken c (cs ++ rest) .start = .ok (⟨kind, c :: cs, .start⟩, rest) :=
    readToken_eq_ok.mpr ⟨rfl, h, hrest, rfl⟩
  rw [List.cons_append, read?, htoken]

theorem read?_quoted (name rest : List Char) :
    read? ("@Properties[".toList ++ Quoted.enclose '\'' name ++ [']'] ++ rest) =
      some (.property name, rest) := by
  have hsplit : splitQuoted (Quoted.double '\'' name ++ ['\''] ++ ']' :: rest) =
      some (Quoted.double '\'' name ++ ['\''], ']' :: rest) :=
    splitQuoted_eq_some.mpr ⟨rfl, ⟨name, rfl⟩, by simp⟩
  have hform : "@Properties[".toList ++ Quoted.enclose '\'' name ++ [']'] ++ rest =
      '@' :: ("Properties['".toList ++ (Quoted.double '\'' name ++ ['\''] ++ ']' :: rest)) := by
    simp [Quoted.enclose]
  have htoken : ∀ cs, readToken '@' cs .start = .error (.unexpectedCharacter '@' .start) :=
    fun _ => rfl
  have hdrop : ∀ body, ("Properties['".toList ++ body).drop "Properties['".length = body :=
    fun _ => List.drop_left' rfl
  rw [hform, read?, htoken]
  simp only [hdrop, hsplit, Option.map_some, List.dropLast_concat, Quoted.undouble_double]
  rfl

theorem read?_array (behind : List Char) : read? ('(' :: behind) = some (.array, behind) := by
  have hends : ∀ y ∈ behind.head?, Ends (.mark .openParen) y :=
    fun y _ => ends_mark_iff.mpr (by simp)
  exact read?_token (.mark .openParen) hends

/-- A token that closes a part of a call is no operator. -/
theorem read?_closing (h : Lexeme kind word) (hkind : ∀ m, kind ≠ .mark m) (hrest : Closes rest) :
    read? (word ++ rest) =
      if kind = .identifier then some (.property word, rest)
      else match Reader.literal? ⟨kind, word, .start⟩ with
        | some (some l) => some (.literal l, rest)
        | _ => none := by
  have hends : ∀ y ∈ rest.head?, Ends kind y := by
    intro y hy
    rcases hrest y hy with rfl | rfl <;> exact ends_of_delimiter hkind (by decide)
  rw [read?_token h hends]
  unfold ofToken?
  rw [if_neg (hkind .openParen)]
  split
  next =>
    have hopen := hrest '(' rfl
    simp at hopen
  next => rfl

theorem read?_literal (h : l.Legible) (hrest : Closes rest) :
    read? (l.text ++ rest) = some (.literal l, rest) := by
  have hkind : ∀ m, l.kind ≠ .mark m := by
    cases l with
    | boolean b => cases b <;> simp [Literal.kind]
    | _ => simp [Literal.kind]
  have hidentifier : l.kind ≠ .identifier := by
    cases l with
    | boolean b => cases b <;> simp [Literal.kind]
    | _ => simp [Literal.kind]
  rw [read?_closing h.lexeme hkind hrest, if_neg hidentifier, l.literal?_text]

theorem read?_property {name : List Char} (h : IsName name) (hrest : Closes rest) :
    read? (Expr.propertyText name ++ rest) = some (.property name, rest) := by
  unfold Expr.propertyText
  split
  next =>
    have hkind : ∀ m, TokenKind.identifier ≠ .mark m := by simp
    rw [read?_closing h.lexeme hkind hrest, if_pos rfl]
  next => exact read?_quoted name rest

/-- A name in front of a parenthesis is that of an operator. -/
theorem read?_call {name : List Char} {head : CallHead} (hne : name ≠ [])
    (hletters : name.all startsName = true) (hhead : ofName? name = some head)
    (behind : List Char) : read? (name ++ '(' :: behind) = some (head, behind) := by
  have hword : Lexeme (wordKind name) name := by
    obtain ⟨c, cs, rfl⟩ := List.exists_cons_of_ne_nil hne
    have hall := List.all_eq_true.mp hletters
    exact .word (hall c (by simp)) fun d hd => continuesName_of_startsName (hall d (by simp [hd]))
  have hkind : ∀ m, wordKind name ≠ .mark m := by
    unfold wordKind
    split <;> simp
  rw [read?_token hword]
  · simp [ofToken?, hkind, hhead]
  · intro y hy
    obtain rfl := Option.some.inj hy
    exact ends_of_delimiter hkind (by decide)

end CallHead

theorem closes_nil : Closes [] := by
  simp [Closes]

theorem closes_comma (rest : List Char) : Closes (',' :: rest) := by
  simp [Closes]

theorem closes_paren (rest : List Char) : Closes (')' :: rest) := by
  simp [Closes]

namespace Expr

/-- What is first to be seen of a tree in call form. -/
def callHead : Expr → CallHead
  | property name => .property name.toList
  | literal l => .literal l
  | array _ => .array
  | unary op _ => .unary op
  | binary op _ _ => .binary op

/-- What stands behind the head of a tree in call form, with `rest` behind the tree. -/
def behindHead (rest : List Char) : Expr → List Char
  | property _ => rest
  | literal _ => rest
  | array ls => [',', ' '].intercalate (ls.map Literal.text) ++ ')' :: rest
  | unary _ e => e.callText ++ ')' :: rest
  | binary _ l r => l.callText ++ ',' :: ' ' :: (r.callText ++ ')' :: rest)

variable {e f : Expr} {rest behind : List Char}

theorem read?_callText (h : e.Legible) (hrest : Closes rest) :
    CallHead.read? (e.callText ++ rest) = some (e.callHead, e.behindHead rest) := by
  cases e with
  | property name => exact CallHead.read?_property h hrest
  | literal l => exact CallHead.read?_literal h hrest
  | array ls =>
    have hread := CallHead.read?_array ((array ls).behindHead rest)
    simpa [callText, callHead, behindHead] using hread
  | unary op e =>
    have hletters : op.callName.toList ≠ [] ∧ op.callName.toList.all startsName = true := by
      cases op <;> decide
    have hread := CallHead.read?_call hletters.1 hletters.2 (CallHead.ofName?_unary op)
      ((unary op e).behindHead rest)
    simpa [callText, callHead, behindHead] using hread
  | binary op l r =>
    have hletters : op.callName.toList ≠ [] ∧ op.callName.toList.all startsName = true := by
      cases op with
      | comparison c => cases c <;> decide
      | connective c => cases c <;> decide
      | like negated => cases negated <;> decide
      | among negated => cases negated <;> decide
    have hread := CallHead.read?_call hletters.1 hletters.2 (CallHead.ofName?_binary op)
      ((binary op l r).behindHead rest)
    simpa [callText, callHead, behindHead] using hread

/-- Trees with the same text have the same head, and the same text behind it. -/
theorem heads_of_callText (he : e.Legible) (hf : f.Legible) (hrest : Closes rest)
    (hbehind : Closes behind) (h : e.callText ++ rest = f.callText ++ behind) :
    e.callHead = f.callHead ∧ e.behindHead rest = f.behindHead behind := by
  have hread := read?_callText he hrest
  rw [h, read?_callText hf hbehind] at hread
  obtain ⟨hhead, htext⟩ := Prod.mk.inj (Option.some.inj hread)
  exact ⟨hhead.symm, htext.symm⟩

theorem literal_of_text {l m : Literal} (hl : l.Legible) (hm : m.Legible) (hrest : Closes rest)
    (hbehind : Closes behind) (h : l.text ++ rest = m.text ++ behind) : l = m ∧ rest = behind := by
  have he : (literal l).Legible := hl
  have hf : (literal m).Legible := hm
  obtain ⟨hhead, htext⟩ := heads_of_callText he hf hrest hbehind h
  exact ⟨CallHead.literal.inj hhead, htext⟩

/-- What stands behind the first element of an array, with `rest` behind the array. -/
def othersText (rest : List Char) : List Literal → List Char
  | [] => ')' :: rest
  | l :: ls => ',' :: ' ' :: (l.text ++ othersText rest ls)

theorem intercalate_text (l : Literal) (ls : List Literal) (rest : List Char) :
    [',', ' '].intercalate ((l :: ls).map Literal.text) ++ ')' :: rest =
      l.text ++ othersText rest ls := by
  induction ls generalizing l with
  | nil => simp [othersText]
  | cons k ls ih =>
    rw [othersText, ← ih k]
    simp

theorem closes_othersText (rest : List Char) (ls : List Literal) : Closes (othersText rest ls) := by
  cases ls with
  | nil => exact closes_paren _
  | cons l ls => exact closes_comma _

theorem others_of_text {ls ms : List Literal} (hls : ∀ l ∈ ls, l.Legible)
    (hms : ∀ m ∈ ms, m.Legible) (h : othersText rest ls = othersText behind ms) :
    ls = ms ∧ rest = behind := by
  induction ls generalizing ms with
  | nil =>
    cases ms with
    | nil => exact ⟨rfl, (List.cons.inj h).2⟩
    | cons m ms => cases h
  | cons l ls ih =>
    cases ms with
    | nil => cases h
    | cons m ms =>
      obtain ⟨hl, htail⟩ := List.forall_mem_cons.mp hls
      obtain ⟨hm, hother⟩ := List.forall_mem_cons.mp hms
      have htext := (List.cons.inj (List.cons.inj h).2).2
      obtain ⟨rfl, hothers⟩ :=
        literal_of_text hl hm (closes_othersText rest ls) (closes_othersText behind ms) htext
      obtain ⟨rfl, hbehind⟩ := ih htail hother hothers
      exact ⟨rfl, hbehind⟩

theorem elements_of_text {ls ms : List Literal} (hls : ls ≠ [] ∧ ∀ l ∈ ls, l.Legible)
    (hms : ms ≠ [] ∧ ∀ m ∈ ms, m.Legible)
    (h : [',', ' '].intercalate (ls.map Literal.text) ++ ')' :: rest =
      [',', ' '].intercalate (ms.map Literal.text) ++ ')' :: behind) : ls = ms ∧ rest = behind := by
  obtain ⟨l, ls, rfl⟩ := List.exists_cons_of_ne_nil hls.1
  obtain ⟨m, ms, rfl⟩ := List.exists_cons_of_ne_nil hms.1
  obtain ⟨hl, htail⟩ := List.forall_mem_cons.mp hls.2
  obtain ⟨hm, hother⟩ := List.forall_mem_cons.mp hms.2
  rw [intercalate_text, intercalate_text] at h
  obtain ⟨rfl, hothers⟩ :=
    literal_of_text hl hm (closes_othersText rest ls) (closes_othersText behind ms) h
  obtain ⟨rfl, hbehind⟩ := others_of_text htail hother hothers
  exact ⟨rfl, hbehind⟩

/-- The text of a tree is that of no other one, and ends where the tree does. -/
theorem callText_unique (he : e.Legible) (hf : f.Legible) (hrest : Closes rest)
    (hbehind : Closes behind) (h : e.callText ++ rest = f.callText ++ behind) :
    e = f ∧ rest = behind := by
  induction e generalizing f rest behind with
  | property name =>
    obtain ⟨hhead, htext⟩ := heads_of_callText he hf hrest hbehind h
    cases f with
    | property other =>
      have hname := String.toList_inj.mp (CallHead.property.inj hhead)
      exact ⟨congrArg property hname, htext⟩
    | _ => cases hhead
  | literal l =>
    obtain ⟨hhead, htext⟩ := heads_of_callText he hf hrest hbehind h
    cases f with
    | literal m => exact ⟨congrArg literal (CallHead.literal.inj hhead), htext⟩
    | _ => cases hhead
  | array ls =>
    obtain ⟨hhead, htext⟩ := heads_of_callText he hf hrest hbehind h
    cases f with
    | array ms =>
      obtain ⟨rfl, hrests⟩ := elements_of_text he hf htext
      exact ⟨rfl, hrests⟩
    | _ => cases hhead
  | unary op e ih =>
    obtain ⟨hhead, htext⟩ := heads_of_callText he hf hrest hbehind h
    cases f with
    | unary other f =>
      have hinner : f.Legible := hf
      obtain ⟨rfl, hclose⟩ := ih he hinner (closes_paren _) (closes_paren _) htext
      rw [CallHead.unary.inj hhead]
      exact ⟨rfl, (List.cons.inj hclose).2⟩
    | _ => cases hhead
  | binary op l r ihl ihr =>
    obtain ⟨hhead, htext⟩ := heads_of_callText he hf hrest hbehind h
    cases f with
    | binary other l' r' =>
      obtain ⟨rfl, hcomma⟩ := ihl he.1 hf.1 (closes_comma _) (closes_comma _) htext
      have hright := (List.cons.inj (List.cons.inj hcomma).2).2
      obtain ⟨rfl, hclose⟩ := ihr he.2 hf.2 (closes_paren _) (closes_paren _) hright
      rw [CallHead.binary.inj hhead]
      exact ⟨rfl, (List.cons.inj hclose).2⟩
    | _ => cases hhead

end Expr

/-- The call form tells trees apart: if those of two accepted texts have the same call form they are
the same tree, down to the digits of their numbers. -/
theorem callText_determines_tree {a b : List Char} {e f : Expr} (ha : parseWhere a = .ok e)
    (hb : parseWhere b = .ok f) (h : e.callText = f.callText) : e = f := by
  have hbare : e.callText ++ [] = f.callText ++ [] := by rw [h]
  exact (Expr.callText_unique (legible_of_parseWhere ha) (legible_of_parseWhere hb) closes_nil
    closes_nil hbare).1

/-- The name has to be quoted. -/
theorem callText_determines_tree_quoted :
    let a := "not Q² is null".toList
    let b := "NOT (Q²)Is null".toList
    let e : Expr := .unary .isNull (.unary .not (.property "Q²"))
    ∃ f, parseWhere a = .ok e ∧ parseWhere b = .ok f ∧
      e.callText = "IsNull(Not(@Properties['Q²']))".toList ∧ e.callText = f.callText ∧ e = f := by
  intro a b e
  have ha : parseWhere a = .ok e := by rfl
  have hb : parseWhere b = .ok (.unary .isNull (.unary .not (.property "Q²"))) := by rfl
  exact ⟨_, ha, hb, by rfl, rfl, callText_determines_tree ha hb rfl⟩

end RowFilter
