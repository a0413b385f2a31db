namespace RowFilter.Separated

/-- The parts of a text between the occurrences of a separator. -/
def items (separator : Char) : List Char → List (List Char)
  | [] => [[]]
  | c :: rest =>
    if c = separator then [] :: items separator rest
    else
      match items separator rest with
      | [] => [[c]]
      | item :: others => (c :: item) :: others

/-- A text without the separator is one item. -/
theorem items_of_not_mem {separator : Char} {text : List Char} (h : separator ∉ text) :
    items separator text = [text] := by
  induction text with
  | nil => rfl
  | cons c rest ih =>
    have hc : c ≠ separator := fun e => h (by simp [e])
    simp [items, hc, ih fun m => h (List.mem_cons_of_mem c m)]

/-- The first separator ends the first item. -/
theorem items_append {separator : Char} {item : List Char} (h : separator ∉ item)
    (rest : List Char) :
    items separator (item ++ separator :: rest) = item :: items separator rest := by
  induction item with
  | nil => simp [items]
  | cons c cs ih =>
    have hc : c ≠ separator := fun e => h (by simp [e])
    simp [items, hc, ih fun m => h (List.mem_cons_of_mem c m)]

variable {separator : Char} {parts : List (List Char)} {text : List Char}

theorem items_ne_nil : items separator text ≠ [] := by
  cases text with
  | nil => exact List.cons_ne_nil _ _
  | cons c rest =>
    unfold items
    split
    · exact List.cons_ne_nil _ _
    · split <;> exact List.cons_ne_nil _ _

theorem items_intercalate (hne : parts ≠ []) (h : ∀ part ∈ parts, separator ∉ part) :
    items separator ([separator].intercalate parts) = parts := by
  induction parts with
  | nil => exact absurd rfl hne
  | cons part parts ih =>
    obtain ⟨hpart, hparts⟩ := List.forall_mem_cons.mp h
    cases parts with
    | nil =>
      rw [List.intercalate_singleton]
      exact items_of_not_mem hpart
    | cons next parts =>
      rw [List.intercalate_cons_cons, List.append_assoc, List.singleton_append,
        items_append hpart, ih (List.cons_ne_nil _ _) hparts]

theorem mem_intercalate {c : Char} (h : c ∈ [separator].intercalate parts) :
    c = separator ∨ ∃ part ∈ parts, c ∈ part := by
  induction parts with
  | nil => cases h
  | cons part parts ih =>
    cases parts with
    | nil =>
      rw [List.intercalate_singleton] at h
      exact .inr ⟨part, List.mem_singleton.mpr rfl, h⟩
    | cons next parts =>
      rw [List.intercalate_cons_cons, List.mem_append, List.mem_append, List.mem_singleton] at h
      rcases h with (hpart | hseparator) | hrest
      · exact .inr ⟨part, List.mem_cons_self, hpart⟩
      · exact .inl hseparator
      · exact (ih hrest).imp id fun ⟨p, hp, hc⟩ => ⟨p, List.mem_cons_of_mem _ hp, hc⟩

/-- The items are made of the characters of the text that are no separators. -/
theorem mem_of_mem_items {part : List Char} (h : part ∈ items separator text) {c : Char}
    (hc : c ∈ part) : c ∈ text ∧ c ≠ separator := by
  induction text generalizing part with
  | nil =>
    obtain rfl := List.mem_singleton.mp h
    cases hc
  | cons d rest ih =>
    have hrest : ∀ {p}, p ∈ items separator rest → c ∈ p → c ∈ d :: rest ∧ c ≠ separator :=
      fun hp hcp => (ih hp hcp).imp (List.mem_cons_of_mem d) id
    unfold items at h
    split at h
    next =>
      rcases List.mem_cons.mp h with rfl | hmem
      · cases hc
      · exact hrest hmem hc
    next hd =>
      split at h
      next hnil => exact absurd hnil items_ne_nil
      next item others hitems =>
        rcases List.mem_cons.mp h with rfl | hmem
        · rcases List.mem_cons.mp hc with rfl | hitem
          · exact ⟨List.mem_cons_self, hd⟩
          · exact hrest (by simp [hitems]) hitem
        · exact hrest (by simp [hitems, hmem]) hc

end RowFilter.Separated
