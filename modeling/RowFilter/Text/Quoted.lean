namespace RowFilter.Quoted

/-- Writes every `quote` twice and all else once. -/
def double (quote : Char) : List Char → List Char
  | [] => []
  | c :: cs => if c = quote then quote :: quote :: double quote cs else c :: double quote cs

/-- Makes one `quote` of each pair, from the left. -/
def undouble (quote : Char) : List Char → List Char
  | c :: d :: cs =>
    if c = quote ∧ d = quote then quote :: undouble quote cs else c :: undouble quote (d :: cs)
  | cs => cs

/-- A text between quotes. -/
def enclose (quote : Char) (text : List Char) : List Char :=
  quote :: double quote text ++ [quote]

/-- The text that a quoted form stands for. A form that lacks one of its outer quotes keeps the
other one. -/
def content (quote : Char) (form : List Char) : List Char :=
  match form with
  | [] => []
  | c :: cs =>
    if c = quote ∧ cs.getLast? = some quote then undouble quote cs.dropLast
    else undouble quote form

@[simp] theorem double_nil (quote : Char) : double quote [] = [] := rfl

theorem double_of_not_mem {quote : Char} {text : List Char} (h : quote ∉ text) :
    double quote text = text := by
  induction text with
  | nil => rfl
  | cons c cs ih =>
    have hc : c ≠ quote := fun e => h (by simp [e])
    simp [double, hc, ih fun m => h (List.mem_cons_of_mem c m)]

theorem double_comm (a b : Char) (text : List Char) :
    double a (double b text) = double b (double a text) := by
  induction text with
  | nil => rfl
  | cons c cs ih =>
    by_cases ha : c = a
    · by_cases hb : c = b
      · rw [← ha, ← hb]
      · have hab : a ≠ b := ha ▸ hb
        simp [double, ha, hab, ih]
    · by_cases hb : c = b
      · have hba : b ≠ a := hb ▸ ha
        simp [double, hb, hba, ih]
      · simp [double, ha, hb, ih]

theorem length_double (quote : Char) (text : List Char) :
    (double quote text).length = text.length + text.count quote := by
  induction text with
  | nil => rfl
  | cons c cs ih =>
    by_cases h : c = quote
    · simp [double, h, ih]
      omega
    · simp [double, h, ih]
      omega

theorem undouble_double (quote : Char) (text : List Char) :
    undouble quote (double quote text) = text := by
  induction text with
  | nil => rfl
  | cons c cs ih =>
    by_cases h : c = quote
    · simp [double, undouble, h, ih]
    · cases hd : double quote cs with
      | nil =>
        rw [hd] at ih
        simp [double, undouble, h, ← ih]
      | cons d ds =>
        rw [hd] at ih
        simp [double, undouble, h, hd, ih]

theorem content_enclose (quote : Char) (text : List Char) :
    content quote (enclose quote text) = text := by
  simp [content, enclose, undouble_double]

end RowFilter.Quoted
