import TypedClient.Proofs.Files.Preparing
/-!
# Fitting — when writing cannot fail

Below the output directory there are some files of the library so far, and the directories on their ways (`Filled`); the way
to each of its files is clear, and the file can be written (`Filled.writeFile`).  So a library whose paths go straight down,
none of them leading through another (`Fits`), is written as a whole into an output directory that stands empty
(`Filled.writeFiles`), and a run that fails has failed before it changed anything (`writeLibrary_fits`).
-/
namespace TypedClient
namespace Files

open FileTree

variable {t t' : FileTree} {dir path : Path} {place p : Place} {name : String} {names : List String}

/-! ## The files of a library -/

/-- **A library that fits below a directory**: its paths lead straight down, and none of them leads through another. -/
def Fits (dir : Path) (files : List Emit.File) : Prop :=
  (∀ file ∈ files, (Path.ofText file.path).isAbsolute = false ∧ (Path.ofText file.path).parts ≠ [] ∧
    (∀ name ∈ (Path.ofText file.path).parts, Downward name) ∧ Walkable (dir.join (.ofText file.path))) ∧
  ∀ a ∈ files, ∀ b ∈ files, (Path.ofText a.path).parts <+: (Path.ofText b.path).parts →
    (Path.ofText a.path).parts = (Path.ofText b.path).parts

instance (dir : Path) (files : List Emit.File) : Decidable (Fits dir files) :=
  inferInstanceAs (Decidable (_ ∧ _))

/-- **An output directory that holds a part of a library**: some of its files and the directories on their ways. -/
structure Filled (dir : Path) (place : Place) (all : List (List String)) (t : FileTree) : Prop where
  wellFormed : t.WellFormed
  there : t.ComesTo dir.slashes dir.parts place
  below : ∀ r, r ≠ [] → t.entry? (place ++ r) = none ∨
    (t.entry? (place ++ r) = some .directory ∧ ∃ names ∈ all, r <+: names ∧ r ≠ names) ∨
    ∃ text, t.entry? (place ++ r) = some (.file text) ∧ r ∈ all

theorem Emptied.filled (h : Emptied dir place t) (all : List (List String)) : Filled dir place all t :=
  ⟨h.wellFormed, h.there, fun r hr => .inl (h.empty r hr)⟩

variable {all : List (List String)} {text : String}

theorem Filled.clearWay (h : Filled dir place all t) (hall : ∀ a ∈ all, ∀ b ∈ all, a <+: b → a = b)
    (hmem : names ++ [name] ∈ all) : t.ClearWay place names := by
  intro r hr
  by_cases hempty : r = []
  · rw [hempty, List.append_nil]
    exact .inr h.there.directory
  obtain hnone | ⟨hdir, -⟩ | ⟨text, -, hmore⟩ := h.below r hempty
  · exact .inl hnone
  · exact .inr hdir
  -- a file on the way would be one of the library, with this one below it
  · rw [hall r hmore _ hmem (hr.trans (List.prefix_append _ _))] at hr
    exact absurd hr (not_append_isPrefix names (by simp))

/-- Once the way to a file of the library has been made, nothing but a file stands where it is to be written. -/
theorem Filled.free (h : Filled dir place all t) (hall : ∀ a ∈ all, ∀ b ∈ all, a <+: b → a = b)
    (hmem : names ++ [name] ∈ all) (hway : MadeWay t (place ++ names) t') {entry : Entry}
    (hentry : t'.entry? (place ++ names ++ [name]) = some entry) : ∃ text, entry = .file text := by
  rw [hway.elsewhere (not_append_isPrefix _ (by simp)), List.append_assoc] at hentry
  obtain hnone | ⟨-, other, hother, hpre, hne⟩ | ⟨text, hfile, -⟩ := h.below (names ++ [name]) (by simp)
  · rw [hnone] at hentry
    cases hentry
  · exact absurd (hall _ hmem other hother hpre) hne
  · exact ⟨text, Option.some.inj (hentry.symm.trans hfile)⟩

theorem writeText_walked (hwalk : t.walk true path = .ok p) (hfree : t.entry? p ≠ some .directory) :
    t.writeText path text = (.ok (), t.put p (.file text)) := by
  rw [FileTree.writeText, hwalk]
  dsimp only
  split
  · rename_i hdir
    exact absurd hdir hfree
  · rfl

/-- **What is new below a directory** when something is put at the end of a way that was made: that itself, and the directories
on the way. -/
theorem MadeWay.entry?_put (hway : MadeWay t (place ++ names) t') (name : String) (entry : Entry) (r : List String) :
    FileTree.entry? (t'.put (place ++ names ++ [name]) entry) (place ++ r) =
      if r = names ++ [name] then some entry else if r <+: names ++ [name] then some .directory else t.entry? (place ++ r) := by
  have hplace : place ++ r = place ++ names ++ [name] ↔ r = names ++ [name] := by
    rw [List.append_assoc, List.append_right_inj]
  rw [FileTree.entry?_put (by simp)]
  by_cases heq : r = names ++ [name]
  · rw [if_pos (hplace.2 heq), if_pos heq]
  rw [if_neg fun h => heq (hplace.1 h), if_neg heq]
  by_cases hpre : r <+: names
  · rw [if_pos (hpre.trans (List.prefix_append _ _))]
    obtain ⟨s, rfl⟩ := hpre
    have hthere := hway.there
    rw [← List.append_assoc] at hthere
    exact hway.wellFormed.directory_above hthere
  · rw [if_neg fun hconcat => (List.prefix_concat_iff.1 hconcat).elim heq hpre,
      hway.elsewhere fun hr => hpre ((List.prefix_append_right_inj _).1 hr)]

/-- A file of the library is written when the way to it has been made. -/
theorem Filled.put (h : Filled dir place all t) (hmem : names ++ [name] ∈ all) (hway : MadeWay t (place ++ names) t')
    (hfree : ∀ entry, t'.entry? (place ++ names ++ [name]) = some entry → ∃ text, entry = .file text) (text : String) :
    Filled dir place all (t'.put (place ++ names ++ [name]) (.file text)) := by
  have hne : place ++ names ++ [name] ≠ [] := by simp
  have hkeeps : ∀ {q e}, t.entry? q = some e →
      FileTree.entry? (t'.put (place ++ names ++ [name]) (.file text)) q = some e ∨ ∃ text, e = .file text := by
    intro q e he
    have hkept := hway.adds.keeps he
    rw [entry?_put hne]
    split
    · rename_i hq
      subst hq
      exact .inr (hfree e hkept)
    · exact .inl hkept
  have hdirectory : t'.entry? (place ++ names ++ [name]) ≠ some .directory := by
    intro hentry
    obtain ⟨_, heq⟩ := hfree _ hentry
    cases heq
  refine ⟨hway.wellFormed.put hway.there hdirectory _, h.there.kept hway.adds.home hkeeps, fun r hr => ?_⟩
  have hentry := hway.entry?_put name (.file text) r
  split at hentry
  · rename_i heq
    exact .inr (.inr ⟨text, hentry, heq ▸ hmem⟩)
  rename_i heq
  split at hentry
  · rename_i hpre
    exact .inr (.inl ⟨hentry, _, hmem, hpre, heq⟩)
  · rw [hentry]
    exact h.below r hr

/-- **How a file of a library is written**: the way to it is made, and it is put at its end. -/
theorem Filled.writeFile_eq (h : Filled dir place all t) (hall : ∀ a ∈ all, ∀ b ∈ all, a <+: b → a = b) {q : Path}
    (hrelative : q.isAbsolute = false) (hparts : q.parts = names ++ [name]) (hnames : ∀ m ∈ q.parts, Downward m)
    (hwalkable : Walkable (dir.join q)) (hmem : q.parts ∈ all) (text : String) :
    ∃ t₁, MadeWay t (place ++ names) t₁ ∧
      (∀ entry, t₁.entry? (place ++ names ++ [name]) = some entry → ∃ text, entry = .file text) ∧
      (Files.writeFile (dir.join q) text : StateM FileTree _) t =
        (.ok (), t₁.put (place ++ names ++ [name]) (.file text)) := by
  have hjoin : dir.join q = ⟨dir.slashes, dir.parts ++ names ++ [name]⟩ := by
    rw [Path.join, hrelative, hparts, List.append_assoc]
    rfl
  have hparent : Path.parent ⟨dir.slashes, dir.parts ++ names ++ [name]⟩ = ⟨dir.slashes, dir.parts ++ names⟩ := by
    rw [Path.parent, List.dropLast_concat]
  rw [hparts] at hnames hmem
  rw [hjoin] at hwalkable ⊢
  have hdown : ∀ m ∈ names, Downward m := fun m hm => hnames m (List.mem_append_left _ hm)
  obtain ⟨t₁, hmake, hway⟩ := makeUpwards_clear h.wellFormed h.there (walkable_initial hwalkable) hdown
    (h.clearWay hall hmem)
  have hfree : ∀ entry, t₁.entry? (place ++ names ++ [name]) = some entry → ∃ text, entry = .file text :=
    fun _ => h.free hall hmem hway
  have hdirectory : t₁.entry? (place ++ names ++ [name]) ≠ some .directory := by
    intro hentry
    obtain ⟨_, heq⟩ := hfree _ hentry
    cases heq
  have hwalk : t₁.walk true ⟨dir.slashes, dir.parts ++ names ++ [name]⟩ = .ok (place ++ names ++ [name]) := by
    refine (hway.comesTo h.there hdown).walk_last hwalkable (hnames name (by simp)) fun target hentry => ?_
    obtain ⟨_, heq⟩ := hfree _ hentry
    cases heq
  refine ⟨t₁, hway, hfree, ?_⟩
  rw [Files.writeFile_eq, hparent, makeDirectories]
  dsimp only
  rw [hmake]
  dsimp only
  rw [writeText_walked hwalk hdirectory]
  rfl

/-- **A file of a library that fits can be written.** -/
theorem Filled.writeFile (h : Filled dir place all t) (hall : ∀ a ∈ all, ∀ b ∈ all, a <+: b → a = b) {q : Path}
    (hrelative : q.isAbsolute = false) (hne : q.parts ≠ []) (hnames : ∀ m ∈ q.parts, Downward m)
    (hwalkable : Walkable (dir.join q)) (hmem : q.parts ∈ all) (text : String) :
    ∃ t', (Files.writeFile (dir.join q) text : StateM FileTree _) t = (.ok (), t') ∧ Filled dir place all t' := by
  obtain ⟨names, name, hparts⟩ : ∃ names name, q.parts = names ++ [name] := ⟨_, _, (List.dropLast_concat_getLast hne).symm⟩
  obtain ⟨t₁, hway, hfree, hwritten⟩ := h.writeFile_eq hall hrelative hparts hnames hwalkable hmem text
  exact ⟨_, hwritten, h.put (hparts ▸ hmem) hway hfree text⟩

/-- **A library that fits is written as a whole** into an output directory that stands empty. -/
theorem Filled.writeFiles {files : List Emit.File} (hall : ∀ a ∈ all, ∀ b ∈ all, a <+: b → a = b)
    (h : Filled dir place all t)
    (hfiles : ∀ file ∈ files, (Path.ofText file.path).isAbsolute = false ∧ (Path.ofText file.path).parts ≠ [] ∧
      (∀ name ∈ (Path.ofText file.path).parts, Downward name) ∧ Walkable (dir.join (.ofText file.path)) ∧
      (Path.ofText file.path).parts ∈ all) :
    ∃ t', (Files.writeFiles dir files : StateM FileTree _) t =
      (.ok (files.map fun file => dir.join (.ofText file.path)), t') := by
  induction files generalizing t with
  | nil => exact ⟨t, rfl⟩
  | cons file rest ih =>
    obtain ⟨hrelative, hne, hnames, hwalkable, hmem⟩ := hfiles file List.mem_cons_self
    obtain ⟨t₁, hwritten, hfilled⟩ := h.writeFile hall hrelative hne hnames hwalkable hmem file.contents
    obtain ⟨t₂, hrest⟩ := ih hfilled fun f hf => hfiles f (List.mem_cons_of_mem _ hf)
    refine ⟨t₂, ?_⟩
    rw [writeFiles_cons, hwritten]
    dsimp only
    rw [hrest]
    rfl

/-- **All or nothing**: along a steady output path, a library that fits is written as a whole, or the output directory is
refused and nothing is changed. -/
theorem writeLibrary_fits {overwrite : Bool} (h : t.WellFormed) (hdir : Steady t dir overwrite) {files : List Emit.File}
    (hfits : Fits dir files) : (∃ e, (writeLibrary dir files overwrite : StateM FileTree _) t = (.error e, t)) ∨
      ∃ t', (writeLibrary dir files overwrite : StateM FileTree _) t =
        (.ok (files.map fun file => dir.join (.ofText file.path)), t') := by
  rw [writeLibrary_eq]
  obtain ⟨e, hrefused⟩ | ⟨t₁, place, hprepared, hemptied⟩ := prepare_steady h hdir
  · rw [hrefused]
    exact .inl ⟨e, rfl⟩
  · rw [hprepared]
    have hfilled := hemptied.filled (files.map fun file => (Path.ofText file.path).parts)
    refine .inr (hfilled.writeFiles ?_ fun file hfile => ?_)
    · intro a ha b hb hpre
      obtain ⟨f, hf, rfl⟩ := List.mem_map.1 ha
      obtain ⟨g, hg, rfl⟩ := List.mem_map.1 hb
      exact hfits.2 f hf g hg hpre
    · obtain ⟨hrelative, hne, hnames, hwalkable⟩ := hfits.1 file hfile
      exact ⟨hrelative, hne, hnames, hwalkable, List.mem_map_of_mem hfile⟩

end Files
end TypedClient
