import Mathlib.Data.List.Induction
import TypedClient.Files.Tree
/-!
# Entries — what stands where in a tree of files

A table of entries is read through `FileTree.entry?`: what is put, removed and cleared is seen there, and nothing else is
(`entry?_put`, `entry?_remove`, `entry?_clear`).  In a **well-formed** tree, what stands somewhere stands in a directory, so
that nothing is below a place where no directory is (`WellFormed.none_below`).
-/
namespace TypedClient
namespace Files
namespace FileTree

variable {t t' t'' : FileTree} {place p q : Place} {entry e : Entry}

/-! ## Changes of one entry -/

theorem entry?_of_ne_nil (h : p ≠ []) : t.entry? p = t.entries.lookup p := by
  unfold entry?
  rw [if_neg (by simpa using h)]

theorem ne_nil_of_ne_directory (h : t.entry? p ≠ some .directory) : p ≠ [] := by
  rintro rfl
  exact h rfl

theorem lookup_setEntry (place : Place) (entry : Entry) (p : Place) : ∀ entries : List (Place × Entry),
    (setEntry entries place entry).lookup p = if p = place then some entry else entries.lookup p
  | [] => by
    by_cases hp : p = place
    · simp [setEntry, hp]
    · rw [if_neg hp, setEntry, List.lookup_cons, beq_eq_false_iff_ne.2 hp]
  | (k, e) :: rest => by
    have ih := lookup_setEntry place entry p rest
    unfold setEntry
    by_cases hk : k = place
    · subst hk
      rw [if_pos rfl, List.lookup_cons, List.lookup_cons]
      by_cases hp : p = k
      · rw [beq_iff_eq.2 hp, if_pos hp]
      · rw [beq_eq_false_iff_ne.2 hp, if_neg hp]
    · rw [if_neg hk, List.lookup_cons, List.lookup_cons, ih]
      by_cases hp : p = k
      · simp [hp, hk]
      · simp [beq_eq_false_iff_ne.2 hp]

/-- What is put somewhere is there, and all else is as it was. -/
theorem entry?_put (h : place ≠ []) (t : FileTree) (entry : Entry) (p : Place) :
    entry? (t.put place entry) p = if p = place then some entry else t.entry? p := by
  by_cases hp : p = []
  · subst hp
    rw [if_neg (Ne.symm h)]
    rfl
  · rw [entry?_of_ne_nil hp, entry?_of_ne_nil hp]
    exact lookup_setEntry place entry p t.entries

theorem lookup_filter (keep : Place → Bool) (p : Place) : ∀ entries : List (Place × Entry),
    (entries.filter fun (k, _) => keep k).lookup p = if keep p then entries.lookup p else none
  | [] => by simp
  | (k, e) :: rest => by
    have ih := lookup_filter keep p rest
    by_cases hp : p = k
    · subst hp
      by_cases hkeep : keep p = true
      · rw [List.filter_cons_of_pos (by exact hkeep), List.lookup_cons, List.lookup_cons, beq_self_eq_true, if_pos hkeep]
      · rw [List.filter_cons_of_neg (by exact hkeep), ih, if_neg hkeep, if_neg hkeep]
    · have hne := beq_eq_false_iff_ne.2 hp
      rw [List.lookup_cons, hne, ← ih]
      by_cases hkeep : keep k = true
      · rw [List.filter_cons_of_pos (by exact hkeep), List.lookup_cons, hne]
      · rw [List.filter_cons_of_neg (by exact hkeep)]

/-- What is removed is gone with all below it, and all else is as it was. -/
theorem entry?_remove (h : place ≠ []) (t : FileTree) (p : Place) :
    entry? (t.remove place) p = if place <+: p then none else t.entry? p := by
  by_cases hp : p = []
  · subst hp
    rw [if_neg (by simpa using h)]
    rfl
  · rw [entry?_of_ne_nil hp, entry?_of_ne_nil hp]
    refine (lookup_filter (fun k => !place.isPrefixOf k) p t.entries).trans ?_
    by_cases hpre : place <+: p
    · rw [if_pos hpre, if_neg (by simpa using hpre)]
    · rw [if_neg hpre, if_pos (by simpa [← List.isPrefixOf_iff_prefix] using hpre)]

theorem entry?_clear (t : FileTree) (place p : Place) :
    entry? (t.clear place) p = if place <+: p ∧ p ≠ place then none else t.entry? p := by
  by_cases hp : p = []
  · subst hp
    rw [if_neg fun ⟨hpre, hne⟩ => hne (List.prefix_nil.1 hpre).symm]
    rfl
  · rw [entry?_of_ne_nil hp, entry?_of_ne_nil hp]
    refine (lookup_filter (fun k => k = place || !place.isPrefixOf k) p t.entries).trans ?_
    by_cases hpre : place <+: p ∧ p ≠ place
    · rw [if_pos hpre, if_neg (by simpa using ⟨hpre.2, hpre.1⟩)]
    · rw [if_neg hpre, if_pos ?_]
      rw [← List.isPrefixOf_iff_prefix, not_and, not_not] at hpre
      cases hout : place.isPrefixOf p with
      | true => simp [hpre hout]
      | false => simp

/-! ## Well-formed trees -/

/-- **What stands somewhere stands in a directory.** -/
def WellFormed (t : FileTree) : Prop :=
  ∀ p name, t.entry? (p ++ [name]) ≠ none → t.entry? p = some .directory

/-- A tree is well-formed if each of its entries stands in a directory. -/
theorem wellFormed_of_entries (h : ∀ entry ∈ t.entries, t.entry? entry.1.dropLast = some .directory) : t.WellFormed := by
  intro p name hsome
  rw [entry?_of_ne_nil (by simp)] at hsome
  obtain ⟨e, he⟩ := Option.ne_none_iff_exists'.1 hsome
  obtain ⟨before, behind, hentries, -⟩ := List.lookup_eq_some_iff.1 he
  have := h (p ++ [name], e) (by rw [hentries]; simp)
  rwa [List.dropLast_concat] at this

/-- **Nothing is below a place where no directory is.** -/
theorem WellFormed.none_below (h : t.WellFormed) (hp : t.entry? p ≠ some .directory) :
    ∀ {r : List String}, r ≠ [] → t.entry? (p ++ r) = none := by
  intro r
  induction r using List.reverseRecOn with
  | nil => exact fun hr => absurd rfl hr
  | append_singleton r name ih =>
    intro _
    by_contra hsome
    rw [← List.append_assoc] at hsome
    have hdir := h (p ++ r) name hsome
    by_cases hr : r = []
    · subst hr
      rw [List.append_nil] at hdir
      exact hp hdir
    · rw [ih hr] at hdir
      cases hdir

theorem WellFormed.vacant_below (h : t.WellFormed) (hp : t.entry? p = none) (r : List String) : t.entry? (p ++ r) = none := by
  by_cases hr : r = []
  · rwa [hr, List.append_nil]
  · exact h.none_below (by rw [hp]; nofun) hr

theorem WellFormed.above (h : t.WellFormed) {r : List String} (hp : t.entry? (p ++ r) ≠ none) (hr : r ≠ []) :
    t.entry? p = some .directory := by
  by_contra hdir
  exact hp (h.none_below hdir hr)

theorem WellFormed.directory_above (h : t.WellFormed) {r : List String} (hdir : t.entry? (p ++ r) = some .directory) :
    t.entry? p = some .directory := by
  by_cases hr : r = []
  · rwa [hr, List.append_nil] at hdir
  · exact h.above (by rw [hdir]; nofun) hr

theorem WellFormed.directory_dropLast (h : t.WellFormed) (hdir : t.entry? p = some .directory) :
    t.entry? p.dropLast = some .directory := by
  cases p using List.reverseRecOn with
  | nil => rfl
  | append_singleton p last =>
    rw [List.dropLast_concat]
    exact h.directory_above hdir

theorem WellFormed.remove (h : t.WellFormed) (hplace : place ≠ []) : (t.remove place).WellFormed := by
  intro p name hsome
  rw [entry?_remove hplace] at hsome ⊢
  split at hsome
  · exact absurd rfl hsome
  · rename_i hout
    rw [if_neg fun hpre => hout (hpre.trans (List.prefix_append p [name]))]
    exact h p name hsome

theorem WellFormed.clear (h : t.WellFormed) : (t.clear place).WellFormed := by
  intro p name hsome
  rw [entry?_clear] at hsome ⊢
  split at hsome
  · exact absurd rfl hsome
  · rename_i hout
    rw [if_neg]
    · exact h p name hsome
    · rintro ⟨hpre, hne⟩
      refine hout ⟨hpre.trans (List.prefix_append p [name]), ?_⟩
      rintro rfl
      exact hne (hpre.eq_of_length_le (by simp)).symm

/-! ## More directories -/

/-- **A tree with more directories**: what stood there stands there still, and whatever is new is a directory. -/
structure AddsDirectories (t t' : FileTree) : Prop where
  home : t'.home = t.home
  keeps : ∀ {p e}, t.entry? p = some e → t'.entry? p = some e
  new : ∀ {p}, t'.entry? p = t.entry? p ∨ t'.entry? p = some .directory

theorem AddsDirectories.refl (t : FileTree) : AddsDirectories t t := ⟨rfl, id, .inl rfl⟩

theorem AddsDirectories.trans (h : AddsDirectories t t') (h' : AddsDirectories t' t'') : AddsDirectories t t'' := by
  refine ⟨h'.home.trans h.home, fun he => h'.keeps (h.keeps he), fun {p} => ?_⟩
  rcases h'.new (p := p) with heq | hdir
  · rw [heq]
    exact h.new
  · exact .inr hdir

/-- What is not as it was is a directory where nothing stood. -/
theorem AddsDirectories.same_or_new (h : AddsDirectories t t') (p : Place) :
    t'.entry? p = t.entry? p ∨ t.entry? p = none ∧ t'.entry? p = some .directory := by
  cases hp : t.entry? p with
  | some e => exact .inl (h.keeps hp)
  | none => exact (hp ▸ h.new (p := p)).imp_right fun hdir => ⟨rfl, hdir⟩

/-- Links are not added. -/
theorem AddsDirectories.link (h : AddsDirectories t t') {target : String} (hlink : t'.entry? p = some (.link target)) :
    t.entry? p = some (.link target) := by
  obtain heq | hdir := h.new (p := p)
  · exact heq.symm.trans hlink
  · rw [hdir] at hlink
    cases hlink

theorem addsDirectories_put (h : t.entry? place = none) : AddsDirectories t (t.put place .directory) := by
  have hne : place ≠ [] := ne_nil_of_ne_directory (by rw [h]; nofun)
  refine ⟨rfl, fun {p e} he => ?_, fun {p} => ?_⟩
  · rw [entry?_put hne]
    split
    · rename_i hp
      rw [hp, h] at he
      cases he
    · exact he
  · rw [entry?_put hne]
    split
    · exact .inr rfl
    · exact .inl rfl

theorem addsDirectories_makeDirectory (t : FileTree) (path : Path) : AddsDirectories t (t.makeDirectory path).2 := by
  unfold makeDirectory
  split
  · exact .refl t
  · rename_i place _
    split
    · exact .refl t
    · rename_i hfree
      exact addsDirectories_put (by simpa using hfree)

end FileTree
end Files
end TypedClient
