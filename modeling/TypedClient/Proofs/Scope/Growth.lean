import Mathlib.Data.List.Nodup
import Mathlib.Data.List.Perm.Subperm
import TypedClient.Scope.Tree
/-!
# Growth — what comes to be in the tables

Symbols are entered at the ends of the tables, and a new scope is empty.  A free name is not taken, so that an import
under such a name leaves the names of a table without repetition.
-/
namespace TypedClient
namespace Scope

/-- A definition as the scope around its own holds it. -/
def Definition.within (scope : String) (d : Definition) : Definition :=
  { d with localName := Tree.qualify scope d.localName }

/-! ## Names that are free -/

theorem toString_injective : Function.Injective (toString : Nat → String) := by
  intro m n h
  have hdigits : Nat.toDigits 10 m = Nat.toDigits 10 n := by
    rw [← Nat.toList_repr, ← Nat.toList_repr]
    exact congrArg String.toList h
  simpa using congrArg (Nat.ofDigitChars 10 · 0) hdigits

/-- **Names that begin alike and end with different numbers are different**, and different from their common beginning. -/
theorem numbered_injective (base separator : String) {candidate : Nat → String} (hzero : candidate 0 = base)
    (hsucc : ∀ n, candidate (n + 1) = base ++ separator ++ toString (n + 2)) : Function.Injective candidate := by
  have hne : ∀ n, base ≠ candidate (n + 1) := by
    intro n h
    have hlength := congrArg (·.toList.length) h
    simp [hsucc] at hlength
  intro m n h
  cases m with
  | zero =>
    cases n with
    | zero => rfl
    | succ n => exact absurd (hzero.symm.trans h) (hne n)
  | succ m =>
    cases n with
    | zero => exact absurd (hzero.symm.trans h.symm) (hne m)
    | succ n =>
      rw [hsucc, hsucc] at h
      have hstring := congrArg String.toList h
      simp only [String.toList_append, List.append_cancel_left_eq] at hstring
      have hnumber := toString_injective (String.toList_injective hstring)
      omega

/-- **Of one candidate more than there are names in use, one is free.** -/
theorem exists_free {candidate : Nat → String} (hinjective : Function.Injective candidate) {used : List String}
    {taken : String → Bool} (htaken : ∀ name, taken name = true → name ∈ used) :
    ∃ name, ((List.range (used.length + 1)).map candidate).find? (!taken ·) = some name := by
  cases h : ((List.range (used.length + 1)).map candidate).find? (!taken ·) with
  | some name => exact ⟨name, rfl⟩
  | none =>
    have hnodup : ((List.range (used.length + 1)).map candidate).Nodup := List.nodup_range.map hinjective
    have hsub : (List.range (used.length + 1)).map candidate ⊆ used := by
      intro name hname
      have hnot := List.find?_eq_none.1 h name hname
      rw [Bool.not_eq_true, Bool.not_eq_false'] at hnot
      exact htaken name hnot
    have hlen := (hnodup.subperm hsub).length_le
    rw [List.length_map, List.length_range] at hlen
    omega

/-- What is chosen of some candidates, the first one if none will do, is a candidate. -/
theorem exists_chosen (candidate : Nat → String) (count : Nat) (free : String → Bool) :
    ∃ n, (((List.range count).map candidate).find? free).getD (candidate 0) = candidate n := by
  cases hf : ((List.range count).map candidate).find? free with
  | none => exact ⟨0, rfl⟩
  | some name =>
    obtain ⟨n, -, rfl⟩ := List.mem_map.1 (List.mem_of_find?_eq_some hf)
    exact ⟨n, rfl⟩

namespace Table

theorem candidate_injective (short : String) : Function.Injective (candidate short) :=
  numbered_injective short "_" rfl fun _ => rfl

theorem taken_eq_true_iff {table : Table} {name : String} :
    table.taken name = true ↔ name ∈ table.map Symbol.localName := by
  simp [taken]

/-- **A free name is not taken.** -/
theorem taken_freeName (table : Table) (short : String) : table.taken (table.freeName short) = false := by
  have htaken : ∀ name, table.taken name = true → name ∈ table.map Symbol.localName := fun _ => taken_eq_true_iff.1
  obtain ⟨name, hname⟩ := exists_free (candidate_injective short) htaken
  rw [List.length_map] at hname
  rw [freeName, hname]
  simpa using List.find?_some hname

theorem nodup_concat {table : Table} {symbol : Symbol} (h : (table.map Symbol.localName).Nodup)
    (hs : symbol.localName ∉ table.map Symbol.localName) : ((table ++ [symbol]).map Symbol.localName).Nodup := by
  rw [List.map_append, List.nodup_append_comm]
  exact List.nodup_cons.2 ⟨hs, h⟩

theorem eq_of_localName {table : Table} (h : (table.map Symbol.localName).Nodup) {x y : Symbol} (hx : x ∈ table)
    (hy : y ∈ table) (hxy : x.localName = y.localName) : x = y :=
  List.inj_on_of_nodup_map h hx hy hxy

theorem get?_of_mem {table : Table} (h : (table.map Symbol.localName).Nodup) {symbol : Symbol} (hs : symbol ∈ table) :
    table.find? (·.localName == symbol.localName) = some symbol := by
  cases hf : table.find? (·.localName == symbol.localName) with
  | none => exact absurd (beq_self_eq_true _) (List.find?_eq_none.1 hf symbol hs)
  | some found =>
    have hname : found.localName = symbol.localName := by simpa using List.find?_some hf
    rw [eq_of_localName h (List.mem_of_find?_eq_some hf) hs hname]

end Table

namespace Tree

/-- The definition that a scope would get. -/
def defining (t : Tree) (id : Id) (name : String) (place : Option String) (isPublic : Bool) : Definition :=
  ⟨name, (t.get id).path, place, isPublic, if isPublic then some (t.globalName id name) else none⟩

theorem lt_of_mem {t : Tree} {symbol : Symbol} {id : Id} (hs : symbol ∈ t.table id) : id < t.scopes.length := by
  by_contra hid
  have : t.table id = [] := by
    unfold Tree.table Tree.get
    rw [List.getElem?_eq_none (Nat.le_of_not_lt hid)]
    rfl
  rw [this] at hs
  cases hs

/-! ## Growth -/

/-- One tree is another with more symbols at the ends of its tables. -/
structure Grown (t t' : Tree) (added : Id → Table) : Prop where
  length : t'.scopes.length = t.scopes.length
  get : ∀ id, t'.get id = { t.get id with table := t.table id ++ added id }

section Grown

variable {t t' t'' : Tree} {added more : Id → Table} {id : Id}

theorem Grown.table (h : Grown t t' added) (id : Id) : t'.table id = t.table id ++ added id := by
  unfold Tree.table
  rw [h.get]
  rfl

theorem Grown.name (h : Grown t t' added) (id : Id) : (t'.get id).name = (t.get id).name := by
  rw [h.get]

theorem Grown.path (h : Grown t t' added) (id : Id) : (t'.get id).path = (t.get id).path := by
  rw [h.get]

theorem Grown.enclosing (h : Grown t t' added) (id : Id) : (t'.get id).enclosing = (t.get id).enclosing := by
  rw [h.get]

theorem Grown.mem (h : Grown t t' added) {symbol : Symbol} (hs : symbol ∈ t.table id) : symbol ∈ t'.table id := by
  rw [h.table]
  exact List.mem_append_left _ hs

theorem Grown.mem_added (h : Grown t t' added) {symbol : Symbol} (hs : symbol ∈ added id) : symbol ∈ t'.table id := by
  rw [h.table]
  exact List.mem_append_right _ hs

theorem Grown.refl (t : Tree) : Grown t t fun _ => [] :=
  ⟨rfl, fun _ => by simp [Tree.table]⟩

theorem Grown.trans (h : Grown t t' added) (h' : Grown t' t'' more) : Grown t t'' fun id => added id ++ more id := by
  refine ⟨h'.length.trans h.length, fun id => ?_⟩
  rw [h'.get, h.table, h.get]
  simp

theorem grown_enter (h : id < t.scopes.length) (symbol : Symbol) :
    Grown t (t.enter id symbol) fun j => if j = id then [symbol] else [] := by
  refine ⟨by simp [enter], fun j => ?_⟩
  unfold Tree.table Tree.get enter
  rw [List.getElem?_modify]
  by_cases hj : j = id
  · subst hj
    simp [List.getElem?_eq_getElem h]
  · simp [hj, Ne.symm hj]

end Grown

/-! ## A new scope -/

section AddScope

variable (t : Tree) (parent : Id) (name : String) (path : Option String)

theorem length_addScope : (t.addScope parent name path).1.scopes.length = t.scopes.length + 1 := by
  simp [addScope]

theorem get_addScope (id : Id) :
    (t.addScope parent name path).1.get id =
      if id = t.scopes.length then ⟨name, path, t.outwards parent, []⟩ else t.get id := by
  unfold addScope Tree.get
  by_cases hid : id = t.scopes.length
  · subst hid
    simp
  · rw [if_neg hid]
    by_cases hlt : id < t.scopes.length
    · simp only [List.getElem?_append_left hlt]
    · have hge : t.scopes.length ≤ id := Nat.le_of_not_lt hlt
      have hge' : (t.scopes ++ [Record.mk name path (t.outwards parent) []]).length ≤ id := by
        rw [List.length_append, List.length_singleton]
        exact Nat.lt_of_le_of_ne hge (Ne.symm hid)
      simp only [List.getElem?_eq_none hge, List.getElem?_eq_none hge']

theorem table_addScope (id : Id) : (t.addScope parent name path).1.table id = t.table id := by
  unfold Tree.table
  rw [get_addScope]
  split
  · rename_i hid
    subst hid
    simp [Tree.get]
  · rfl

end AddScope
end Tree
end Scope
end TypedClient
