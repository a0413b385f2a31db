namespace RowFilter

/-- The number of bytes that a text takes in UTF-8. -/
def utf8Length : List Char → Nat
  | [] => 0
  | c :: cs => c.utf8Size + utf8Length cs

@[simp] theorem utf8Length_append (xs ys : List Char) :
    utf8Length (xs ++ ys) = utf8Length xs + utf8Length ys := by
  induction xs with
  | nil => simp [utf8Length]
  | cons c cs ih =>
    simp only [List.cons_append, utf8Length, ih]
    omega

/-- The characters that fill exactly the first `n` bytes; none if that cuts a character in two. -/
def takeBytes : List Char → Nat → Option (List Char)
  | _, 0 => some []
  | [], _ + 1 => none
  | c :: cs, n + 1 =>
    if n + 1 < c.utf8Size then none else (takeBytes cs (n + 1 - c.utf8Size)).map (c :: ·)

/-- A byte offset with its line and column, both counted from one. -/
structure Position where
  offset : Nat
  line : Nat
  column : Nat
deriving DecidableEq, Repr

namespace Position

/-- The beginning of a text. -/
def start : Position := ⟨0, 1, 1⟩

/-- The position behind one more character. -/
def next (p : Position) (c : Char) : Position :=
  if c = '\n' then ⟨p.offset + c.utf8Size, p.line + 1, 1⟩
  else ⟨p.offset + c.utf8Size, p.line, p.column + 1⟩

/-- The position behind a run of characters. -/
def after (p : Position) (read : List Char) : Position :=
  read.foldl next p

/-- The position of a byte offset. An offset past the end stands for the end, and one inside a
character keeps its number but takes line and column from the end of the text. -/
def locate (text : List Char) (offset : Nat) : Position :=
  let offset := min offset (utf8Length text)
  let before := (takeBytes text offset).getD text
  ⟨offset, before.count '\n' + 1, (before.reverse.takeWhile (· ≠ '\n')).length + 1⟩

/-- The position behind the last character. -/
def endOf (text : List Char) : Position :=
  locate text (utf8Length text)

/-- How messages name a position. -/
def describe (p : Position) : String :=
  s!"line {p.line}, column {p.column}"

@[simp] theorem after_nil (p : Position) : p.after [] = p := rfl

@[simp] theorem after_cons (p : Position) (c : Char) (cs : List Char) :
    p.after (c :: cs) = (p.next c).after cs := rfl

theorem after_append (p : Position) (xs ys : List Char) :
    p.after (xs ++ ys) = (p.after xs).after ys := by
  simp [after]

theorem offset_next (p : Position) (c : Char) : (p.next c).offset = p.offset + c.utf8Size := by
  unfold next
  split <;> rfl

/-- A position moves on by the bytes of what is read. -/
theorem offset_after (p : Position) (read : List Char) :
    (p.after read).offset = p.offset + utf8Length read := by
  induction read generalizing p with
  | nil => rfl
  | cons c cs ih =>
    rw [after_cons, ih, offset_next, utf8Length]
    omega

end Position

end RowFilter
