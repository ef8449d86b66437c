import Mathlib.Data.List.Forall2
import Mathlib.Data.List.Nodup
import Mathlib.Data.List.Pairwise
/-!
# Lists — entries under keys, and lists side by side

Entries are found by their keys, in any order if the keys are all different.  Lists that are related element by element have as
many elements, and each element of one has its own in the other.
-/
namespace TypedClient

/-! ## Keys -/

theorem mem_of_lookup {β : Type} (key : String) (v : β) : ∀ entries : List (String × β),
    entries.lookup key = some v → (key, v) ∈ entries
  | [], h => by cases h
  | (k, x) :: rest, h => by
    rw [List.lookup_cons] at h
    by_cases hk : key = k
    · subst hk
      simp only [beq_self_eq_true, Option.some.injEq] at h
      rw [h]
      exact List.mem_cons_self
    · rw [beq_false_of_ne hk] at h
      exact List.mem_cons_of_mem _ (mem_of_lookup key v rest h)

theorem lookup_of_mem {β : Type} (key : String) (v : β) : ∀ entries : List (String × β),
    (entries.map (·.1)).Nodup → (key, v) ∈ entries → entries.lookup key = some v
  | [], _, h => by cases h
  | (k, x) :: rest, hn, h => by
    rw [List.map_cons, List.nodup_cons] at hn
    rw [List.lookup_cons]
    rcases List.mem_cons.1 h with h | h
    · obtain ⟨rfl, rfl⟩ := Prod.mk.inj h
      rw [beq_self_eq_true]
    · have hk : key ≠ k := fun hk => hn.1 (hk ▸ List.mem_map.2 ⟨(key, v), h, rfl⟩)
      rw [beq_false_of_ne hk]
      exact lookup_of_mem key v rest hn.2 h

theorem lookup_eq_none_iff_not_mem {β : Type} {key : String} {entries : List (String × β)} :
    entries.lookup key = none ↔ key ∉ entries.map (·.1) := by
  rw [List.lookup_eq_none_iff]
  constructor
  · intro h hm
    obtain ⟨e, he, rfl⟩ := List.mem_map.1 hm
    exact bne_iff_ne.1 (h e he) rfl
  · exact fun h e he => bne_iff_ne.2 fun heq => h (heq ▸ List.mem_map_of_mem he)

theorem lookup_perm {β : Type} {xs ys : List (String × β)} (hkeys : (xs.map (·.1)).Nodup) (h : xs.Perm ys) (key : String) :
    xs.lookup key = ys.lookup key := by
  have hkeys' : (ys.map (·.1)).Nodup := (h.map _).nodup_iff.1 hkeys
  cases hx : xs.lookup key with
  | some v => exact (lookup_of_mem key v ys hkeys' (h.mem_iff.1 (mem_of_lookup key v xs hx))).symm
  | none =>
    cases hy : ys.lookup key with
    | none => rfl
    | some v => exact nomatch hx.symm.trans (lookup_of_mem key v xs hkeys (h.mem_iff.2 (mem_of_lookup key v ys hy)))

theorem exists_map_eq {α β : Type} {f : β → α} {p : β → Prop} : ∀ {xs : List α}, (∀ x ∈ xs, ∃ y, f y = x ∧ p y) →
    ∃ ys : List β, ys.map f = xs ∧ ∀ y ∈ ys, p y
  | [], _ => ⟨[], rfl, by simp⟩
  | x :: xs, h => by
    obtain ⟨y, hy, hp⟩ := h x List.mem_cons_self
    obtain ⟨ys, hys, hps⟩ := exists_map_eq fun x hx => h x (List.mem_cons_of_mem _ hx)
    refine ⟨y :: ys, by rw [List.map_cons, hy, hys], ?_⟩
    simpa using ⟨hp, hps⟩

theorem getElem_map_inj_iff {α : Type} {β : Type} {f : α → β} {xs : List α} (h : (xs.map f).Nodup) {i j : Nat}
    {hi : i < xs.length} {hj : j < xs.length} : f xs[i] = f xs[j] ↔ i = j := by
  rw [← List.getElem_map f, ← List.getElem_map f, h.getElem_inj_iff]
  · simpa using hj
  · simpa using hi

/-! ## Lists side by side -/

theorem exists_of_forall₂ {α β : Type} {r : α → β → Prop} {xs : List α} {ys : List β} (h : List.Forall₂ r xs ys) :
    (∀ x ∈ xs, ∃ y ∈ ys, r x y) ∧ ∀ y ∈ ys, ∃ x ∈ xs, r x y := by
  induction h with
  | nil => exact ⟨nofun, nofun⟩
  | cons hxy hrest ih =>
    refine ⟨List.forall_mem_cons.2 ⟨⟨_, List.mem_cons_self, hxy⟩, fun x hx => ?_⟩,
      List.forall_mem_cons.2 ⟨⟨_, List.mem_cons_self, hxy⟩, fun y hy => ?_⟩⟩
    · obtain ⟨y, hy, h⟩ := ih.1 x hx
      exact ⟨y, List.mem_cons_of_mem _ hy, h⟩
    · obtain ⟨x, hx, h⟩ := ih.2 y hy
      exact ⟨x, List.mem_cons_of_mem _ hx, h⟩

theorem getElem?_of_forall₂ {α β : Type} {r : α → β → Prop} : ∀ {xs : List α} {ys : List β} {i : Nat} {x : α},
    List.Forall₂ r xs ys → xs[i]? = some x → ∃ y, ys[i]? = some y ∧ r x y
  | _, _, i, x, .nil, h => by simp at h
  | _ :: _, y :: _, 0, x, .cons hxy _, h => by
    cases h
    exact ⟨y, rfl, hxy⟩
  | _ :: _, _ :: _, i + 1, x, .cons _ hrest, h => by
    rw [List.getElem?_cons_succ] at h ⊢
    exact getElem?_of_forall₂ hrest h

theorem forall₂_map_eq {α β γ : Type} {f : α → γ} {g : β → γ} {xs : List α} {ys : List β}
    (h : List.Forall₂ (fun x y => g y = f x) xs ys) : ys.map g = xs.map f := by
  induction h with
  | nil => rfl
  | cons hxy _ ih => rw [List.map_cons, List.map_cons, hxy, ih]

theorem flatMap_eq_of_forall₂ {α β γ : Type} {f : α → List γ} {g : β → List γ} {xs : List α} {ys : List β}
    (h : List.Forall₂ (fun x y => g y = f x) xs ys) : ys.flatMap g = xs.flatMap f := by
  rw [List.flatMap_def, List.flatMap_def, forall₂_map_eq h]

/-! ## Joined lists -/

/-- In lists that are joined without a repetition each element has its own list. -/
theorem eq_of_mem_flatMap {α β : Type} {f : α → List β} {xs : List α} (h : (xs.flatMap f).Nodup) {x y : α} (hx : x ∈ xs)
    (hy : y ∈ xs) {b : β} (hbx : b ∈ f x) (hby : b ∈ f y) : x = y := by
  have hsymm : Std.Symm (Function.onFun List.Disjoint f) := ⟨fun _ _ hdisjoint _ hy hx => hdisjoint hx hy⟩
  by_contra hne
  exact (List.nodup_flatMap.1 h).2.forall hx hy hne hbx hby

/-- What is joined ends with its last piece, and begins with the same whatever that is. -/
theorem exists_intercalate_concat {α : Type} (sep : List α) (pieces : List (List α)) :
    ∃ before, ∀ last, sep.intercalate (pieces ++ [last]) = before ++ last := by
  induction pieces with
  | nil => exact ⟨[], fun _ => List.intercalate_singleton⟩
  | cons piece rest ih =>
    obtain ⟨before, hbefore⟩ := ih
    refine ⟨piece ++ sep ++ before, fun last => ?_⟩
    have hne : rest ++ [last] ≠ [] := List.append_ne_nil_of_right_ne_nil rest (List.cons_ne_nil last [])
    rw [List.cons_append, List.intercalate_cons_of_ne_nil hne, hbefore, List.append_assoc (piece ++ sep)]

end TypedClient
