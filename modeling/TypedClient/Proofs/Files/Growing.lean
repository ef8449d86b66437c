import TypedClient.Proofs.Files.Preparing
/-!
# Growing — which directories are made along a path

Every directory that is made stands where a beginning of the path leads, and stands in a directory (`Grown`): so it is with one
directory (`grown_makeDirectory`) and with all that are made upwards of it (`makeUpwards_grown`), if the path comes to a
directory with some of its names.  The output directory that is made in this way stands empty (`createOutput_emptied`).
-/
namespace TypedClient
namespace Files

open FileTree

variable {t t' t₁ : FileTree} {dir path : Path} {place p P : Place} {slashes : Nat} {before names more : List String}

/-- **A tree that has grown along a path**: what was added are directories, each where a beginning of the path leads now. -/
structure Grown (t : FileTree) (slashes : Nat) (names : List String) (t' : FileTree) : Prop where
  adds : AddsDirectories t t'
  wellFormed : t'.WellFormed
  new : ∀ p, t'.entry? p = t.entry? p ∨ (t.entry? p = none ∧ t'.entry? p = some .directory ∧
    ∃ above, above <+: names ∧ t'.walk true ⟨slashes, above⟩ = .ok p)

theorem Grown.refl (h : t.WellFormed) : Grown t slashes names t :=
  ⟨.refl t, h, fun _ => .inl rfl⟩

/-- A path that leads to a directory leads to it in a tree where all is kept. -/
theorem walk_kept (hhome : t'.home = t.home) (hkeeps : ∀ {q e}, t.entry? q = some e → t'.entry? q = some e)
    (hdir : t.entry? p = some .directory) (hwalk : t.walk true path = .ok p) : t'.walk true path = .ok p := by
  obtain ⟨hwalkable, hleads⟩ := walk_eq_ok.1 hwalk
  refine walk_eq_ok.2 ⟨hwalkable, ?_⟩
  rw [start_congr hhome]
  refine hleads.kept (fun he => .inl (hkeeps he)) fun target hlink => ?_
  rw [hkeeps hdir] at hlink
  cases hlink

/-- **Trees grow step by step**, along more and more of a path. -/
theorem Grown.trans (h : Grown t slashes names t₁) (h' : Grown t₁ slashes more t') (hpre : names <+: more) :
    Grown t slashes more t' := by
  refine ⟨h.adds.trans h'.adds, h'.wellFormed, fun p => ?_⟩
  obtain hsame | ⟨hnone, hdir, above, habove, hwalk⟩ := h.new p
  · rw [← hsame]
    exact h'.new p
  · exact .inr ⟨hnone, h'.adds.keeps hdir, above, habove.trans hpre, walk_kept h'.adds.home h'.adds.keeps hdir hwalk⟩

/-! ## One directory -/

/-- A path that comes to a directory with its first names comes to a free place with more of them only. -/
theorem FileTree.ComesTo.more_ne_nil (h : t.ComesTo slashes before place)
    (hwalk : t.walk false ⟨slashes, before ++ names⟩ = .ok P) (hnone : t.entry? P = none) : names ≠ [] := by
  rintro rfl
  obtain ⟨-, hleads⟩ := walk_eq_ok.1 hwalk
  obtain ⟨q, hstop, hsome⟩ := h.leads.stop (by rw [h.directory]; nofun)
  rw [List.append_nil] at hleads
  exact hsome (Except.ok.inj (hstop.walkLinks.symm.trans hleads.walkLinks) ▸ hnone)

/-- **The free place that a path comes to is in a directory.** -/
theorem FileTree.ComesTo.parent (h : t.ComesTo slashes before place) (hwellFormed : t.WellFormed)
    (hwalk : t.walk false ⟨slashes, before ++ names⟩ = .ok P) (hnone : t.entry? P = none) :
    ∃ q name, P = q ++ [name] ∧ t.entry? q = some .directory := by
  obtain ⟨m, hm⟩ := h.go_on
  have hleads : Leads t false m place names P :=
    walkLinks_eq_ok.1 ((hm (h.more_ne_nil hwalk hnone)).symm.trans (walk_eq_ok.1 hwalk).2.walkLinks)
  exact hleads.parent hwellFormed h.directory hnone

/-- A path comes to the directory that is put where it leads. -/
theorem comesTo_put (hwalk : t.walk false ⟨slashes, names⟩ = .ok P) (hnone : t.entry? P = none) :
    (t.put P .directory).ComesTo slashes names P := by
  obtain ⟨-, hleads⟩ := walk_eq_ok.1 hwalk
  have hdir : FileTree.entry? (t.put P .directory) P = some .directory := by
    rw [entry?_put (ne_nil_of_ne_directory (by rw [hnone]; nofun)), if_pos rfl]
  have hfollowed : Leads t true 40 (t.start ⟨slashes, names⟩) names P :=
    hleads.followed fun target hlink => by rw [hnone] at hlink; cases hlink
  refine ⟨hfollowed.kept (fun he => .inl ((addsDirectories_put hnone).keeps he)) fun target hlink => ?_, hdir⟩
  rw [hdir] at hlink
  cases hlink

theorem grown_put (hwellFormed : t.WellFormed) (h : t.ComesTo slashes before place)
    (hwalk : t.walk false ⟨slashes, before ++ names⟩ = .ok P) (hnone : t.entry? P = none) :
    Grown t slashes (before ++ names) (t.put P .directory) := by
  obtain ⟨q, name, rfl, hparent⟩ := h.parent hwellFormed hwalk hnone
  have hcomes := comesTo_put hwalk hnone
  refine ⟨addsDirectories_put hnone, hwellFormed.put hparent (by rw [hnone]; nofun) .directory, fun p => ?_⟩
  by_cases hp : p = q ++ [name]
  · subst hp
    exact .inr ⟨hnone, hcomes.directory, _, List.prefix_refl _, hcomes.walk (walk_eq_ok.1 hwalk).1⟩
  · rw [entry?_put (by simp), if_neg hp]
    exact .inl rfl

theorem grown_makeDirectory (hwellFormed : t.WellFormed) (h : t.ComesTo slashes before place) (names : List String) :
    Grown t slashes (before ++ names) (t.makeDirectory ⟨slashes, before ++ names⟩).2 := by
  cases hmake : t.makeDirectory ⟨slashes, before ++ names⟩ with
  | mk made t₁ =>
    cases made with
    | error e =>
      rw [makeDirectory_eq_error hmake]
      exact .refl hwellFormed
    | ok _ =>
      obtain ⟨P, hwalk, hnone, rfl⟩ := makeDirectory_eq_ok hmake
      exact grown_put hwellFormed h hwalk hnone

/-! ## Directories upwards -/

theorem FileTree.ComesTo.makeDirectory_ne_missing (h : t.ComesTo slashes names place) :
    (t.makeDirectory ⟨slashes, names⟩).1 ≠ .error .missing := by
  by_cases hwalkable : Walkable ⟨slashes, names⟩
  · obtain ⟨q, hstop, hsome⟩ := h.leads.stop (by rw [h.directory]; nofun)
    rw [makeDirectory_occupied (walk_eq_ok.2 ⟨hwalkable, hstop⟩) hsome]
    nofun
  · obtain ⟨e, he, hwalk⟩ := walk_of_not_walkable hwalkable t
    rw [FileTree.makeDirectory, hwalk]
    exact fun hmissing => he (Except.error.inj hmissing)

/-- **Directories are made upwards along their path**, from the directory on that its first names lead to. -/
theorem makeUpwards_grown (hwellFormed : t.WellFormed) (h : t.ComesTo slashes before place) (names : List String)
    (existing : Bool) :
    Grown t slashes (before ++ names) ((makeUpwards slashes (before ++ names).reverse existing : StateM FileTree _) t).2 := by
  -- the first attempt decides, unless the directory above is missing
  have hfirst : ∀ (names : List String) (existing : Bool), (t.makeDirectory ⟨slashes, before ++ names⟩).1 ≠ .error .missing →
      Grown t slashes (before ++ names)
        ((makeUpwards slashes (before ++ names).reverse existing : StateM FileTree _) t).2 := by
    intro names existing hne
    have hgrown := grown_makeDirectory hwellFormed h names
    cases hmake : t.makeDirectory ⟨slashes, before ++ names⟩ with
    | mk made t₁ =>
      rw [hmake] at hgrown hne
      cases made with
      | ok _ => rwa [makeUpwards_made hmake]
      | error e =>
        obtain rfl := makeDirectory_eq_error hmake
        rw [makeUpwards_refused hmake fun heq => hne (congrArg _ heq)]
        exact hgrown
  -- on the names beyond the directory that is there, where no directory is missing
  induction names using List.reverseRecOn generalizing existing with
  | nil =>
    refine hfirst [] existing ?_
    rw [List.append_nil]
    exact h.makeDirectory_ne_missing
  | append_singleton names name ih =>
    by_cases hmissing : (t.makeDirectory ⟨slashes, before ++ (names ++ [name])⟩).1 = .error .missing
    case neg => exact hfirst _ existing hmissing
    have hmake : t.makeDirectory ⟨slashes, before ++ names ++ [name]⟩ = (.error .missing, t) := by
      rw [List.append_assoc]
      exact Prod.ext hmissing (makeDirectory_eq_error (e := .missing) (Prod.ext hmissing rfl))
    have habove := ih true
    rw [← List.append_assoc, makeUpwards_missing hmake]
    split
    · rename_i hupper
      rw [hupper] at habove
      exact habove.trans (.refl habove.wellFormed) (List.prefix_append _ _)
    · rename_i t₁ hupper
      rw [hupper] at habove
      have hcomes : t₁.ComesTo slashes before place := h.kept habove.adds.home fun he => .inl (habove.adds.keeps he)
      have hlast := grown_makeDirectory habove.wellFormed hcomes (names ++ [name])
      rw [← List.append_assoc] at hlast
      exact habove.trans hlast (List.prefix_append _ _)

/-- **The output directory that was made** stands empty where its path leads. -/
theorem createOutput_emptied (hwellFormed : t.WellFormed) (h : t.ComesTo dir.slashes before place)
    (hparts : dir.parts = before ++ names) (hok : (createOutput dir : StateM FileTree _) t = (.ok (), t')) :
    Grown t dir.slashes dir.parts t' ∧ Walkable dir ∧ ∃ P, Emptied dir P t' := by
  rw [createOutput_eq, hparts] at hok
  have hgrown := makeUpwards_grown hwellFormed h names false
  cases hmake : (makeUpwards dir.slashes (before ++ names).reverse false : StateM FileTree _) t with
  | mk made t₁ =>
    rw [hmake] at hgrown
    simp only [hmake] at hok
    cases made with
    | error e => cases hok
    | ok _ =>
      cases hok
      obtain ⟨t₀, P, hrun, hwalk, hnone, rfl⟩ := makeUpwards_created hmake
      rw [List.reverse_reverse] at hwalk
      have hbefore : t₀.WellFormed := by
        rcases hrun with rfl | ⟨name, above, hreverse, rfl⟩
        · exact hwellFormed
        -- the directory above the output directory was made first, beyond the one that the path comes to
        · have hadds := makeUpwards_adds dir.slashes above true t
          have hcomes := h.kept hadds.home fun he => .inl (hadds.keeps he)
          obtain ⟨names, last, rfl⟩ : ∃ names' last, names = names' ++ [last] :=
            ⟨_, _, (List.dropLast_concat_getLast (hcomes.more_ne_nil hwalk hnone)).symm⟩
          rw [← List.append_assoc, List.reverse_append, List.reverse_singleton, List.singleton_append] at hreverse
          obtain ⟨-, rfl⟩ := List.cons.inj hreverse
          exact (makeUpwards_grown hwellFormed h names true).wellFormed
      have hcomes := comesTo_put hwalk hnone
      obtain ⟨hwalkable, -⟩ := walk_eq_ok.1 hwalk
      rw [← hparts] at hgrown hcomes hwalkable
      refine ⟨hgrown, hwalkable, P, hgrown.wellFormed, hcomes, fun r hr => ?_⟩
      rw [entry?_put (ne_nil_of_ne_directory (by rw [hnone]; nofun)), if_neg (by simpa using hr)]
      exact hbefore.vacant_below hnone r

end Files
end TypedClient
