import RowFilter.Proofs.Blanks
import RowFilter.Schema.FieldSpec

namespace RowFilter

theorem continues_of_isPlainName {name : List Char} (h : isPlainName name = true) :
    name ≠ [] ∧ ∀ c ∈ name, continuesPlainName c = true := by
  cases name with
  | nil => cases h
  | cons c cs =>
    obtain ⟨hc, hcs⟩ := Bool.and_eq_true_iff.mp h
    refine ⟨List.cons_ne_nil c cs, List.forall_mem_cons.mpr ⟨?_, List.all_eq_true.mp hcs⟩⟩
    simp only [startsPlainName, continuesPlainName, Bool.or_eq_true, Bool.and_eq_true] at hc ⊢
    exact hc.imp (fun h => ⟨.inl h.1, h.2⟩) id

/-- A member of an enumeration as it can stand between bars. -/
structure IsMember (member : List Char) : Prop where
  noBar : '|' ∉ member
  noParen : ')' ∉ member
  head : ∀ c ∈ member.head?, isBlank c = false
  last : ∀ c ∈ member.getLast?, isBlank c = false

/-- A type that can be written: an enumeration has members, and each can stand between bars. -/
def FieldType.Specified : FieldType → Prop
  | enumeration members => members ≠ [] ∧ ∀ m ∈ members, IsMember m.toList
  | _ => True

structure Field.Specified (f : Field) : Prop where
  name : isPlainName f.name.toList = true
  type : f.type.Specified

/-- The letters and digits that a type is written with. -/
def FieldType.word : FieldType → List Char
  | enumeration _ => "enum".toList
  | t => t.text.toList

/-- What a type is written with in parentheses. -/
def FieldType.parens? : FieldType → Option (List Char)
  | enumeration members => some (['|'].intercalate (members.map String.toList))
  | _ => none

/-- The parentheses behind the letters, if there are any. -/
def FieldType.parensText (t : FieldType) : List Char :=
  match t.parens? with
  | some text => '(' :: (text ++ [')'])
  | none => []

theorem FieldType.toList_text (t : FieldType) : t.text.toList = t.word ++ t.parensText := by
  cases t with
  | enumeration members =>
    simp [text, word, parensText, parens?, String.toList_append, String.toList_intercalate]
  | _ => simp [word, parensText, parens?]

theorem FieldType.word_alphanum (t : FieldType) :
    t.word ≠ [] ∧ ∀ c ∈ t.word, c.isAlphanum = true := by
  cases t with
  | enumeration members => exact ⟨List.cons_ne_nil _ _, List.all_eq_true.mp rfl⟩
  | integer width => cases width <;> exact ⟨List.cons_ne_nil _ _, List.all_eq_true.mp rfl⟩
  | _ => exact ⟨List.cons_ne_nil _ _, List.all_eq_true.mp rfl⟩

namespace FieldSpec

variable {t : FieldType} {f : Field} {text rest : List Char}

theorem members_intercalate {names : List String} (h : (FieldType.enumeration names).Specified) :
    members (['|'].intercalate (names.map String.toList)) = names := by
  obtain ⟨hne, hnames⟩ := h
  have hbars : ∀ part ∈ names.map String.toList, '|' ∉ part := by
    intro part hpart
    obtain ⟨name, hname, rfl⟩ := List.mem_map.mp hpart
    exact (hnames name hname).noBar
  have htrim : ∀ name ∈ names, String.ofList (trimBlanks name.toList) = name := by
    intro name hname
    rw [trimBlanks_eq_self (hnames name hname).head (hnames name hname).last, String.ofList_toList]
  rw [members, Separated.items_intercalate (by simpa using hne) hbars, List.map_map]
  exact (List.map_congr_left htrim).trans (List.map_id names)

theorem type?_word (h : t.Specified) : type? t.word t.parens? = some t := by
  cases t with
  | enumeration names => simp [type?, FieldType.word, FieldType.parens?, members_intercalate h]
  | integer width => cases width <;> rfl
  | _ => rfl

theorem takeParens_none (h : rest.head? ≠ some '(') : takeParens rest = some (none, rest) := by
  unfold takeParens
  split
  next => exact absurd rfl h
  next => rfl

theorem takeParens_some (h : ')' ∉ text) (rest : List Char) :
    takeParens ('(' :: (text ++ ')' :: rest)) = some (some text, rest) := by
  have htext : ∀ c ∈ text, decide (c ≠ ')') = true := by
    intro c hc
    exact decide_eq_true fun heq => h (heq ▸ hc)
  obtain ⟨htake, hdrop⟩ := span_run htext (')' :: rest) (by simp)
  simp only [takeParens, htake, hdrop]

theorem takeParens_text (h : t.Specified) (hrest : rest.head? ≠ some '(') :
    takeParens (t.parensText ++ rest) = some (t.parens?, rest) := by
  cases t with
  | enumeration names =>
    have hparen : ')' ∉ ['|'].intercalate (names.map String.toList) := by
      intro hmem
      rcases Separated.mem_intercalate hmem with hbar | ⟨part, hpart, hc⟩
      · cases hbar
      · obtain ⟨name, hname, rfl⟩ := List.mem_map.mp hpart
        exact (h.2 name hname).noParen hc
    simpa [FieldType.parensText, FieldType.parens?] using takeParens_some hparen rest
  | _ => exact takeParens_none hrest

/-- A question mark, or none, and blanks are the end of a specification. -/
theorem takeNullable_mark {beforeMark after : List Char} (nullable : Bool)
    (hbefore : ∀ c ∈ beforeMark, isBlank c = true) (hafter : ∀ c ∈ after, isBlank c = true) :
    takeNullable ((if nullable then beforeMark ++ ['?'] else []) ++ after) = some nullable := by
  have hend : dropBlanks after = [] := by
    rw [← List.append_nil after]
    exact dropBlanks_append hafter (by simp)
  cases nullable with
  | false => simp [takeNullable, hend]
  | true =>
    have hmark : dropBlanks (beforeMark ++ '?' :: after) = '?' :: after :=
      dropBlanks_append hbefore fun c hc => by
        obtain rfl := Option.some.inj hc
        decide
    simp [takeNullable, hmark, hend]

/-- Blanks, or none. -/
abbrev Gap := {gap : List Char // ∀ c ∈ gap, isBlank c = true}

/-- The gaps in a specification. -/
structure Layout where
  before : Gap
  beforeColon : Gap
  afterColon : Gap
  beforeMark : Gap
  after : Gap

/-- No gaps at all. -/
def Layout.dense : Layout :=
  let empty : Gap := ⟨[], by simp⟩
  ⟨empty, empty, empty, empty, empty⟩

/-- A field written as its name, a colon and its type, and a question mark if it may be null. -/
def written (l : Layout) (f : Field) : List Char :=
  let mark := if f.nullable then l.beforeMark ++ ['?'] else []
  l.before ++ (f.name.toList ++ (l.beforeColon ++ ':' :: (l.afterColon ++
    (f.type.text.toList ++ (mark ++ l.after)))))

/-- What follows the letters of a type is no letter. -/
theorem head_behind_word {beforeMark after : List Char} (t : FieldType) (nullable : Bool)
    (hbefore : ∀ c ∈ beforeMark, isBlank c = true) (hafter : ∀ c ∈ after, isBlank c = true) :
    let tail := (if nullable then beforeMark ++ ['?'] else []) ++ after
    tail.head? ≠ some '(' ∧ ∀ c ∈ (t.parensText ++ tail).head?, c.isAlphanum = false := by
  intro tail
  have htail : ∀ c ∈ tail.head?, isBlank c = true ∨ c = '?' := by
    refine head_append ?_ fun _ c hc => .inl (hafter c (List.mem_of_mem_head? hc))
    cases nullable with
    | false => simp
    | true =>
      intro c hc
      rcases List.mem_append.mp hc with hblank | hmark
      · exact .inl (hbefore c hblank)
      · exact .inr (List.mem_singleton.mp hmark)
  constructor
  · intro hparen
    rcases htail '(' hparen with hblank | hmark
    · cases hblank
    · cases hmark
  · unfold FieldType.parensText
    cases t.parens? with
    | some text =>
      intro c hc
      obtain rfl := Option.some.inj hc
      decide
    | none =>
      intro c hc
      rcases htail c hc with hblank | rfl
      · exact (not_word_of_isBlank hblank).2
      · decide

/-- Reading comes down to what stands behind the letters of the type. -/
theorem read?_parts {before name beforeColon afterColon word rest : List Char}
    (hbefore : ∀ c ∈ before, isBlank c = true) (hname : isPlainName name = true)
    (hbeforeColon : ∀ c ∈ beforeColon, isBlank c = true)
    (hafterColon : ∀ c ∈ afterColon, isBlank c = true) (hne : word ≠ [])
    (hword : ∀ c ∈ word, c.isAlphanum = true) (hrest : ∀ c ∈ rest.head?, c.isAlphanum = false) :
    read? (before ++ (name ++ (beforeColon ++ ':' :: (afterColon ++ (word ++ rest))))) = do
      let (parens, rest) ← takeParens rest
      let nullable ← takeNullable rest
      return ⟨.ofList name, ← type? word parens, nullable⟩ := by
  let body := word ++ rest
  let behind := ':' :: (afterColon ++ body)
  obtain ⟨hnameNe, hcontinues⟩ := continues_of_isPlainName hname
  have hcolon : ∀ c ∈ behind.head?, c = ':' := by simp [behind]
  have hstart : ∀ c ∈ (name ++ (beforeColon ++ behind)).head?, isBlank c = false :=
    head_append (fun c hc => not_blank_of_continuesPlainName (hcontinues c hc))
      fun hnil => absurd hnil hnameNe
  have hbehind : ∀ c ∈ (beforeColon ++ behind).head?, continuesPlainName c = false := by
    refine head_append (fun c hc => (not_word_of_isBlank (hbeforeColon c hc)).1) fun _ c hc => ?_
    rw [hcolon c hc]
    decide
  have hblank : ∀ c ∈ behind.head?, isBlank c = false := by
    intro c hc
    rw [hcolon c hc]
    decide
  have hbody : ∀ c ∈ body.head?, isBlank c = false :=
    head_append (fun c hc => not_blank_of_isAlphanum (hword c hc)) fun hnil => absurd hnil hne
  obtain ⟨htake, hdrop⟩ := span_run hcontinues _ hbehind
  obtain ⟨hletters, hparens⟩ := span_run hword rest hrest
  have hempty : word.isEmpty = false := List.isEmpty_eq_false_iff.mpr hne
  have hmiddle : dropBlanks (beforeColon ++ behind) = ':' :: (afterColon ++ body) :=
    dropBlanks_append hbeforeColon hblank
  show read? (before ++ (name ++ (beforeColon ++ behind))) = _
  simp only [read?, dropBlanks_append hbefore hstart, htake, hdrop, hname, hmiddle,
    dropBlanks_append hafterColon hbody, body, hletters, hparens, hempty]
  rfl

/-- A field is read back from what is written for it. -/
theorem read?_written (hf : f.Specified) (l : Layout) : read? (written l f) = some f := by
  obtain ⟨hne, hword⟩ := f.type.word_alphanum
  obtain ⟨hparen, hletters⟩ :=
    head_behind_word f.type f.nullable l.beforeMark.2 l.after.2
  have hread := read?_parts l.before.2 hf.name l.beforeColon.2 l.afterColon.2 hne hword hletters
  rw [takeParens_text hf.type hparen] at hread
  simp only [Option.bind_eq_bind, Option.bind_some, type?_word hf.type, String.ofList_toList,
    takeNullable_mark f.nullable l.beforeMark.2 l.after.2] at hread
  simpa [written, f.type.toList_text] using hread

theorem specified_members {text : List Char} (h : ')' ∉ text) :
    (FieldType.enumeration (members text)).Specified := by
  refine ⟨by simp [members, Separated.items_ne_nil], fun m hm => ?_⟩
  obtain ⟨part, hpart, rfl⟩ := List.mem_map.mp hm
  have hchars : ∀ c ∈ trimBlanks part, c ∈ text ∧ c ≠ '|' := fun c hc =>
    Separated.mem_of_mem_items hpart (mem_of_mem_trimBlanks hc)
  rw [String.toList_ofList]
  obtain ⟨hhead, hlast⟩ := ends_trimBlanks part
  exact ⟨fun hc => (hchars _ hc).2 rfl, fun hc => h (hchars _ hc).1, hhead, hlast⟩

theorem specified_of_typeOfName? {name : String} (h : typeOfName? name = some t) :
    t.Specified := by
  cases t with
  | enumeration names =>
    unfold typeOfName? at h
    split at h <;> cases h
  | _ => trivial

theorem not_mem_of_takeParens {parens : Option (List Char)}
    (h : takeParens text = some (parens, rest)) : ∀ inside ∈ parens, ')' ∉ inside := by
  unfold takeParens at h
  split at h
  next =>
    split at h
    next =>
      obtain ⟨rfl, _⟩ := Prod.mk.inj (Option.some.inj h)
      intro inside hinside hparen
      obtain rfl := Option.some.inj hinside
      simpa using all_takeWhile _ hparen
    next => cases h
  next =>
    obtain ⟨rfl, _⟩ := Prod.mk.inj (Option.some.inj h)
    simp

theorem specified_of_type? {name : List Char} {parens : Option (List Char)}
    (h : type? name parens = some t) (hparens : ∀ inside ∈ parens, ')' ∉ inside) :
    t.Specified := by
  unfold type? at h
  cases parens with
  | none => exact specified_of_typeOfName? h
  | some inside =>
    simp only [Option.ite_none_right_eq_some, Option.some.injEq] at h
    exact h.2 ▸ specified_members (hparens inside rfl)

theorem specified_of_read? (h : read? text = some f) : f.Specified := by
  simp only [read?, Option.bind_eq_bind] at h
  split at h
  next => cases h
  next hname =>
    split at h
    next behind _ =>
      split at h
      next => cases h
      next =>
        obtain ⟨⟨parens, rest⟩, hparens, h⟩ := Option.bind_eq_some_iff.mp h
        obtain ⟨nullable, _, h⟩ := Option.bind_eq_some_iff.mp h
        obtain ⟨t, ht, h⟩ := Option.bind_eq_some_iff.mp h
        obtain rfl := Option.some.inj h
        refine ⟨?_, specified_of_type? ht (not_mem_of_takeParens hparens)⟩
        rw [String.toList_ofList]
        simpa using hname
    next => cases h

/-- The fields that are read from some text are those with a plain name and a type that can be
written, and each of them is read back from what is written for it, with any blanks in the gaps. -/
theorem written_reads_back_iff (f : Field) :
    (f.Specified ↔ ∀ l, read? (written l f) = some f) ∧
      (f.Specified ↔ ∃ text, read? text = some f) := by
  refine ⟨⟨read?_written, fun h => specified_of_read? (h .dense)⟩, ?_, ?_⟩
  · intro hf
    exact ⟨_, read?_written hf .dense⟩
  · rintro ⟨text, h⟩
    exact specified_of_read? h

example : written .dense ⟨"Status", .enumeration ["On (hold?", ""], true⟩ =
    "Status:enum(On (hold?|)?".toList := by
  rfl

end FieldSpec

end RowFilter
