import Mathlib.Data.Set.Lattice
import TypedClient.Proofs.Grammar.Reading
/-!
# Meaning — the values that a type denotes

An interpretation says which values the atoms and the generic types have; a reading denotes the union of the intersections
that it consists of.  What is read of texts with `&` between them has every value that all of them have
(`subset_meaning_meets`).  It may have more, unless none of them has alternatives of its own (`meaning_meets`).
-/
namespace TypedClient
namespace Grammar

/-- **Which values the words of the language have.** -/
structure Interpretation (V : Type) where
  atom : String → Set V
  /-- The values of a generic type, by those of its argument. -/
  applied : String → Set V → Set V
  any : atom "any" = Set.univ
  unknown : atom "unknown" = Set.univ

mutual
/-- The values of a factor. -/
def Factor.meaning {V : Type} (I : Interpretation V) : Factor → Set V
  | .atom text => I.atom text
  | .applied head argument => I.applied head (meaning I argument)
  | .group inner => meaning I inner

/-- The values that all factors have. -/
def common {V : Type} (I : Interpretation V) : List Factor → Set V
  | [] => Set.univ
  | f :: fs => f.meaning I ∩ common I fs

/-- **The values of a reading**: those of any of its alternatives. -/
def meaning {V : Type} (I : Interpretation V) : List (List Factor) → Set V
  | [] => ∅
  | i :: is => common I i ∪ meaning I is
end

variable {V : Type} (I : Interpretation V)

theorem common_append : ∀ i j : List Factor, common I (i ++ j) = common I i ∩ common I j
  | [], j => by rw [List.nil_append, common, Set.univ_inter]
  | f :: i, j => by rw [List.cons_append, common, common, common_append i j, Set.inter_assoc]

theorem meaning_singleton (i : List Factor) : meaning I [i] = common I i := by
  rw [meaning, meaning, Set.union_empty]

/-- **Values that both sides of `&` have are kept.** -/
theorem inter_subset_meaning_meet : ∀ r s : Reading, meaning I r ∩ meaning I s ⊆ meaning I (r.meet s)
  | [], s => by
    rw [Reading.meet]
    exact Set.inter_subset_right
  | [i], [] => by
    rw [Reading.meet]
    exact Set.inter_subset_left
  | [i], j :: s => by
    rw [Reading.meet, meaning_singleton, meaning, meaning, common_append, Set.inter_union_distrib_left]
    exact Set.union_subset_union_right _ Set.inter_subset_right
  | i :: j :: r, s => by
    have ih := inter_subset_meaning_meet (j :: r) s
    rw [Reading.meet, meaning, meaning, Set.union_inter_distrib_right]
    exact Set.union_subset_union Set.inter_subset_left ih

/-- **An intersection of types keeps the values that all of them have.** -/
theorem subset_meaning_meets : ∀ {rs : List Reading}, rs ≠ [] → ⋂ r ∈ rs, meaning I r ⊆ meaning I (Reading.meets rs)
  | [], hne => absurd rfl hne
  | [r], _ => by simp [Reading.meets]
  | r :: s :: rest, _ => by
    have ih := subset_meaning_meets (List.cons_ne_nil s rest)
    rw [Reading.meets]
    refine Set.Subset.trans ?_ (inter_subset_meaning_meet I r _)
    refine Set.Subset.trans ?_ (Set.inter_subset_inter_right _ ih)
    simp

/-- **Readings without alternatives** are joined to one without alternatives, of the values that all of them have. -/
theorem exists_meets_eq_singleton : ∀ {rs : List Reading}, rs ≠ [] → (∀ r ∈ rs, r.length = 1) →
    ∃ i, Reading.meets rs = [i] ∧ common I i = ⋂ r ∈ rs, meaning I r
  | [], hne, _ => absurd rfl hne
  | [r], _, hsingle => by
    obtain ⟨i, rfl⟩ := List.length_eq_one_iff.1 (hsingle r List.mem_cons_self)
    exact ⟨i, rfl, by simp [meaning_singleton]⟩
  | r :: s :: rest, _, hsingle => by
    obtain ⟨i, rfl⟩ := List.length_eq_one_iff.1 (hsingle r List.mem_cons_self)
    obtain ⟨j, hj, hcommon⟩ := exists_meets_eq_singleton (List.cons_ne_nil s rest)
      fun t ht => hsingle t (List.mem_cons_of_mem _ ht)
    refine ⟨i ++ j, by rw [Reading.meets, hj]; rfl, ?_⟩
    rw [common_append, hcommon, ← meaning_singleton I i]
    simp

/-- **An intersection of types without alternatives** denotes what all of them have. -/
theorem meaning_meets {rs : List Reading} (hne : rs ≠ []) (h : rs.length ≤ 1 ∨ ∀ r ∈ rs, r.length = 1) :
    meaning I (Reading.meets rs) = ⋂ r ∈ rs, meaning I r := by
  rcases h with hlength | hsingle
  · obtain ⟨r, rfl⟩ := List.length_eq_one_iff.1 (Nat.le_antisymm hlength (List.length_pos_iff.2 hne))
    simp [Reading.meets]
  · obtain ⟨i, hi, hcommon⟩ := exists_meets_eq_singleton I hne hsingle
    rw [hi, meaning_singleton, hcommon]

/-! ## Texts of merged types -/

/-- **Whether a text merges types**: as soon as these can be read, it can, and it denotes every value that all of them have.
If there is one type only, or none of them has alternatives, these are the values that it denotes. -/
def Merges (texts : List String) (text : String) : Prop :=
  ∀ readings, ReadAs texts readings → ∃ r, read? text = some r ∧ ∀ (V : Type) (I : Interpretation V),
    ⋂ s ∈ readings, meaning I s ⊆ meaning I r ∧
      (readings.length ≤ 1 ∨ (∀ s ∈ readings, s.length = 1) → meaning I r = ⋂ s ∈ readings, meaning I s)

theorem merges_both {texts : List String} (hne : texts ≠ []) : Merges texts (" & ".intercalate texts) := by
  intro readings hread
  have hreadings : readings ≠ [] := by
    rintro rfl
    cases hread
    exact hne rfl
  exact ⟨_, read?_both hread hne, fun V I => ⟨subset_meaning_meets I hreadings, meaning_meets I hreadings⟩⟩

/-- Where there is nothing to merge, an atom that has all values does. -/
theorem merges_nil {text : String} (h : IsAtom text) (hall : ∀ (V : Type) (I : Interpretation V), I.atom text = Set.univ) :
    Merges [] text := by
  rintro readings ⟨⟩
  refine ⟨_, h.read?, fun V I => ?_⟩
  have hmeaning : meaning I [[.atom text]] = Set.univ := by
    simp [meaning, common, Factor.meaning, hall V I]
  simp [hmeaning]

theorem merges_any : Merges [] "any" :=
  merges_nil ⟨kept_of_isAtomChar (List.all_eq_true.1 (by decide)), by decide⟩ fun _ I => I.any

theorem merges_unknown : Merges [] "unknown" :=
  merges_nil ⟨kept_of_isAtomChar (List.all_eq_true.1 (by decide)), by decide⟩ fun _ I => I.unknown

end Grammar
end TypedClient
