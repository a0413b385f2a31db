import Mathlib.Data.List.Forall2
import RowFilter.Expr
import RowFilter.Proofs.Conforming

namespace RowFilter

namespace Expr

/-- The names of the properties of an expression, from left to right. -/
def properties : Expr → List String
  | property name => [name]
  | literal _ => []
  | array _ => []
  | unary _ e => e.properties
  | binary _ l r => l.properties ++ r.properties

/-- Two expressions that differ in the names of their properties only, where each name and the one
in its place are in a relation. -/
inductive Renamed (R : String → String → Prop) : Expr → Expr → Prop
  | property {n n' : String} : R n n' → Renamed R (.property n) (.property n')
  | literal (l : Literal) : Renamed R (.literal l) (.literal l)
  | array (ls : List Literal) : Renamed R (.array ls) (.array ls)
  | unary (op : UnaryOp) {e e' : Expr} : Renamed R e e' → Renamed R (.unary op e) (.unary op e')
  | binary (op : BinaryOp) {l l' r r' : Expr} : Renamed R l l' → Renamed R r r' →
      Renamed R (.binary op l r) (.binary op l' r')

variable {R T : String → String → Prop} {e e' : Expr}

/-- Only the names that occur have to be in a relation. -/
theorem Renamed.imp (h : e.Renamed R e') (hRT : ∀ n ∈ e.properties, ∀ n', R n n' → T n n') :
    e.Renamed T e' := by
  induction h with
  | property hn => exact .property (hRT _ (List.mem_singleton.mpr rfl) _ hn)
  | literal l => exact .literal l
  | array ls => exact .array ls
  | unary op _ ih => exact .unary op (ih hRT)
  | binary op _ _ ihl ihr =>
    rw [properties, List.forall_mem_append] at hRT
    exact .binary op (ihl hRT.1) (ihr hRT.2)

theorem renamed_self (e : Expr) : e.Renamed Eq e := by
  induction e with
  | property name => exact .property rfl
  | literal l => exact .literal l
  | array ls => exact .array ls
  | unary op _ ih => exact .unary op ih
  | binary op _ _ ihl ihr => exact .binary op ihl ihr

end Expr

/-- Whether an expression names the field at an index. -/
def Expr.Names (e : Expr) (s : Schema) (i : Nat) : Prop :=
  ∃ n ∈ e.properties, ∃ f, s.resolve n = some (i, f)

/-- Two fields that only their names tell apart. -/
structure Field.Alike (f g : Field) : Prop where
  type : g.type = f.type
  nullable : g.nullable = f.nullable

/-- Two fields that only the case of their names tells apart. -/
structure Field.Respelled (f g : Field) : Prop where
  name : sameIgnoringCase f.name g.name = true
  alike : f.Alike g

theorem Field.Alike.refl (f : Field) : f.Alike f :=
  ⟨rfl, rfl⟩

theorem sameIgnoringCase_congr {a b c d : String} (hac : sameIgnoringCase a c = true)
    (hbd : sameIgnoringCase b d = true) : sameIgnoringCase a b = sameIgnoringCase c d := by
  unfold sameIgnoringCase at *
  rw [of_decide_eq_true hac, of_decide_eq_true hbd]

namespace Schema

/-- A name in one schema and a name in another that both have no field, or have fields that only
names tell apart, of which `g` takes the index of the first to that of the second. -/
inductive Corresponds (s t : Schema) (g : Nat → Nat) (n n' : String) : Prop
  | missing : s.resolve n = none → t.resolve n' = none → Corresponds s t g n n'
  | found {i : Nat} {f f' : Field} : s.resolve n = some (i, f) → t.resolve n' = some (g i, f') →
      f.Alike f' → Corresponds s t g n n'

variable {s t : Schema} {name : String} {fields : List Field} {i index : Nat} {f : Field}

theorem resolveFrom_eq_none : resolveFrom name index fields = none ↔
    ∀ f ∈ fields, sameIgnoringCase f.name name = false := by
  induction fields generalizing index with
  | nil => simp [resolveFrom]
  | cons g rest ih =>
    unfold resolveFrom
    by_cases h : sameIgnoringCase g.name name = true
    · simp [h]
    · simp [h, ih]

theorem same_of_resolveFrom (h : resolveFrom name index fields = some (i, f)) :
    sameIgnoringCase f.name name = true := by
  induction fields generalizing index with
  | nil => cases h
  | cons g rest ih =>
    unfold resolveFrom at h
    split at h
    next hg =>
      obtain ⟨rfl, rfl⟩ := Prod.mk.inj (Option.some.inj h)
      exact hg
    next => exact ih h

/-- What is added behind the fields is looked at only for names that they do not have. -/
theorem resolveFrom_append (more : List Field) : resolveFrom name index (fields ++ more) =
    (resolveFrom name index fields).or (resolveFrom name (index + fields.length) more) := by
  induction fields generalizing index with
  | nil => rfl
  | cons g rest ih =>
    have hindex : index + (g :: rest).length = index + 1 + rest.length := by
      rw [List.length_cons, Nat.add_right_comm, Nat.add_assoc]
    rw [hindex]
    simp only [List.cons_append, resolveFrom]
    split
    · rfl
    · exact ih

theorem resolve_append_of_some {more : List Field} (h : s.resolve name = some (i, f)) :
    (Schema.mk (s.fields ++ more)).resolve name = some (i, f) := by
  have hfrom : resolveFrom name 0 s.fields = some (i, f) := h
  simp [resolve, resolveFrom_append, hfrom]

theorem resolve_append_of_none {more : List Field} (h : s.resolve name = none)
    (hmore : ∀ f ∈ more, sameIgnoringCase f.name name = false) :
    (Schema.mk (s.fields ++ more)).resolve name = none := by
  have hfrom : resolveFrom name 0 s.fields = none := h
  simp [resolve, resolveFrom_append, hfrom, resolveFrom_eq_none.mpr hmore]

theorem resolveFrom_respelled {n n' : String} {others : List Field}
    (hn : sameIgnoringCase n n' = true) (h : List.Forall₂ Field.Respelled fields others)
    (index : Nat) : (resolveFrom n index fields = none ∧ resolveFrom n' index others = none) ∨
      ∃ i f f', resolveFrom n index fields = some (i, f) ∧
        resolveFrom n' index others = some (i, f') ∧ f.Alike f' := by
  induction h generalizing index with
  | nil => exact .inl ⟨rfl, rfl⟩
  | @cons f f' _ _ hf _ ih =>
    have hsame := sameIgnoringCase_congr hf.name hn
    unfold resolveFrom
    by_cases hfound : sameIgnoringCase f.name n = true
    · rw [hfound] at hsame
      exact .inr ⟨index, f, f', by simp [hfound], by simp [← hsame], hf.alike⟩
    · simpa [hfound, ← hsame] using ih (index + 1)

/-- Respelled names have the fields that they had. -/
theorem corresponds_of_respelled {n n' : String} (hn : sameIgnoringCase n n' = true)
    (h : List.Forall₂ Field.Respelled s.fields t.fields) : s.Corresponds t id n n' := by
  rcases resolveFrom_respelled hn h 0 with ⟨hs, ht⟩ | ⟨i, f, f', hs, ht, halike⟩
  · exact .missing hs ht
  · exact .found hs ht halike

/-- Whether no two fields have the same name in any case. -/
def Distinct (s : Schema) : Prop :=
  s.fields.Pairwise fun f g => sameIgnoringCase f.name g.name = false

theorem resolveFrom_of_distinct
    (hs : fields.Pairwise fun f g => sameIgnoringCase f.name g.name = false)
    (hget : fields[i]? = some f) (hname : sameIgnoringCase f.name name = true)
    (index : Nat) : resolveFrom name index fields = some (index + i, f) := by
  induction fields generalizing index i with
  | nil => cases hget
  | cons g rest ih =>
    have hcons := List.pairwise_cons.mp hs
    unfold resolveFrom
    cases i with
    | zero =>
      obtain rfl := Option.some.inj hget
      simp [hname]
    | succ i =>
      have hrest : rest[i]? = some f := hget
      have hother : sameIgnoringCase g.name name = false := by
        rw [← hcons.1 f (List.mem_of_getElem? hrest)]
        exact (sameIgnoringCase_congr (by simp [sameIgnoringCase]) hname).symm
      simp only [hother, Bool.false_eq_true, if_false]
      rw [ih hcons.2 hrest (index + 1), Nat.add_right_comm, Nat.add_assoc]

theorem resolve_of_distinct (hs : s.Distinct) (hget : s.fields[i]? = some f)
    (hname : sameIgnoringCase f.name name = true) : s.resolve name = some (i, f) := by
  have hfrom := resolveFrom_of_distinct hs hget hname 0
  rwa [Nat.zero_add] at hfrom

theorem Distinct.perm (hs : s.Distinct) (h : s.fields.Perm t.fields) : t.Distinct := by
  refine (h.pairwise_iff fun {f g} hfg => ?_).mp hs
  unfold sameIgnoringCase at *
  simpa [eq_comm] using hfg

/-- Fields with distinct names are found wherever they stand. -/
theorem corresponds_of_perm {g : Nat → Nat} (hs : s.Distinct) (hperm : s.fields.Perm t.fields)
    (hg : ∀ (i : Nat) (f : Field), s.fields[i]? = some f → t.fields[g i]? = some f)
    (name : String) : s.Corresponds t g name name := by
  cases hres : s.resolve name with
  | none =>
    refine .missing hres (resolveFrom_eq_none.mpr fun f hf => ?_)
    exact resolveFrom_eq_none.mp hres f (hperm.mem_iff.mpr hf)
  | some found =>
    obtain ⟨i, f⟩ := found
    have hget := hg i f (getElem?_of_resolve hres)
    exact .found hres (resolve_of_distinct (hs.perm hperm) hget (same_of_resolveFrom hres)) (.refl f)

end Schema

end RowFilter
