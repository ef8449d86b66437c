import TypedClient.Proofs.Files.Fitting
import TypedClient.Proofs.Files.Growing
/-!
# Exact — what stands in the output directory after a run

In a tree without links, where a walk ends depends on its names alone (`Leads.ends`).  So the directory that is removed and the
one that is made in its place stand at one place, and nothing changes outside of it but the directories above (`prepare_exact`).
The files are written into it one by one: after each of them there stand the files so far and the directories on their ways, and
nothing else (`Holding.writeFile`).  What a run that succeeds leaves in its output directory is therefore the generated tree
and nothing more (`writeLibrary_exact`).
-/
namespace TypedClient
namespace Files

open FileTree

variable {t t' base : FileTree} {dir path : Path} {place p q P : Place} {name text : String} {names : List String}
  {throughLast overwrite : Bool} {n slashes : Nat}

/-! ## Trees without links -/

/-- **A tree without links**, of which the working directory is a directory. -/
structure Linkless (t : FileTree) : Prop where
  wellFormed : t.WellFormed
  home : t.entry? t.home = some .directory
  linkFree : t.LinkFree []

/-- Where names lead from a place, whatever stands there: `..` leads back. -/
def endsAt : Place → List String → Place
  | place, [] => place
  | place, name :: rest => endsAt (if name = ".." then place.dropLast else place ++ [name]) rest

/-- **Where a walk ends depends on its names alone**, if there are no links. -/
theorem FileTree.Leads.ends (h : Leads t throughLast n place names p) (hfree : t.LinkFree []) : p = endsAt place names := by
  induction h with
  | here => rfl
  | up _ ih =>
    rw [endsAt, if_pos rfl]
    exact ih
  | into hname _ _ ih =>
    rw [endsAt, if_neg hname.1]
    exact ih
  | vacant hname _ => rw [endsAt, if_neg hname.1, endsAt]
  | file hname _ => rw [endsAt, if_neg hname.1, endsAt]
  | unfollowed hname _ _ => rw [endsAt, if_neg hname.1, endsAt]
  | link _ hentry _ _ _ => exact absurd hentry (hfree _ _ List.nil_prefix)

theorem walk_ends (hwalk : t.walk throughLast path = .ok p) (hfree : t.LinkFree []) :
    p = endsAt (t.start path) path.parts :=
  (walk_eq_ok.1 hwalk).2.ends hfree

theorem linkFree_of_new (hfree : t.LinkFree [])
    (hnew : ∀ p, t'.entry? p = t.entry? p ∨ t'.entry? p = none ∨ t'.entry? p = some .directory) : t'.LinkFree [] := by
  intro p target _ hlink
  obtain hsame | hnone | hdir := hnew p
  · exact hfree p target List.nil_prefix (hsame.symm.trans hlink)
  · rw [hnone] at hlink
    cases hlink
  · rw [hdir] at hlink
    cases hlink

def Entry.isLink : Entry → Bool
  | .link _ => true
  | _ => false

theorem linkFree_of_entries (h : ∀ entry ∈ t.entries, entry.2.isLink = false) : t.LinkFree [] := by
  intro p target _ hlink
  have hne : p ≠ [] := ne_nil_of_ne_directory (by rw [hlink]; nofun)
  rw [entry?_of_ne_nil hne] at hlink
  obtain ⟨before, behind, hentries, -⟩ := List.lookup_eq_some_iff.1 hlink
  have hentry := h (p, .link target) (by rw [hentries]; simp)
  cases hentry

/-! ## The old directory -/

theorem removeTree_eq_ok (h : t.removeTree path = (.ok (), t')) :
    ∃ P Q, t.walk false path = .ok P ∧ t.entry? P = some .directory ∧ path.parts ≠ [] ∧ path.parts.getLast? ≠ some ".." ∧
      FileTree.walk (t.clear P) false path = .ok Q ∧ t' = t.remove P := by
  unfold FileTree.removeTree at h
  split at h
  · cases h
  rename_i P hwalk
  split at h
  · rename_i hdir
    split at h
    · cases h
    rename_i hlast
    rw [Bool.or_eq_true, List.isEmpty_iff, decide_eq_true_iff, not_or] at hlast
    split at h
    · cases h
    · rename_i Q hagain
      cases h
      exact ⟨P, Q, hwalk, hdir, hlast.1, hlast.2, hagain, rfl⟩
  · cases h
  · cases h
  · cases h

/-- **A walk from below a place comes to it from above**, if nothing is below it: it climbs to the directory above first. -/
theorem FileTree.Leads.climb (h : Leads (t.clear P) throughLast n place names p) (hp : p = P) (hplace : P <+: place)
    (hne : names ≠ []) (hlast : names.getLast? ≠ some "..") :
    ∃ before rest, names = before ++ rest ∧ ∀ t' : FileTree, Leads t' true n place before P.dropLast := by
  have hvacant : ∀ {place : Place} {name : String}, P <+: place → FileTree.entry? (t.clear P) (place ++ [name]) = none := by
    intro place name hpre
    have hne : place ++ [name] ≠ P := by
      rintro rfl
      exact not_append_isPrefix place (by simp) hpre
    rw [entry?_clear, if_pos ⟨hpre.trans (List.prefix_append _ _), hne⟩]
  -- below the place nothing stands, so that the walk can only climb until it is there
  induction h with
  | here => exact absurd rfl hne
  | @up n place p rest _ ih =>
    by_cases htop : place = P
    · exact ⟨[".."], rest, rfl, fun _ => .up (htop ▸ .here)⟩
    · have hrest : rest ≠ [] := by
        rintro rfl
        exact hlast rfl
      have hbelow : P <+: place.dropLast := by
        obtain ⟨r, rfl⟩ := hplace
        rw [List.dropLast_append_of_ne_nil fun hr => htop (by rw [hr, List.append_nil])]
        exact List.prefix_append _ _
      rw [List.getLast?_cons_of_ne_nil hrest] at hlast
      obtain ⟨before, behind, rfl, hclimb⟩ := ih hp hbelow hrest hlast
      exact ⟨".." :: before, behind, rfl, fun t' => .up (hclimb t')⟩
  | into _ hentry _ _ =>
    rw [hvacant hplace] at hentry
    cases hentry
  | @vacant n place name _ _ =>
    subst hp
    exact absurd hplace (not_append_isPrefix place (by simp))
  | file _ hentry =>
    rw [hvacant hplace] at hentry
    cases hentry
  | unfollowed _ hentry _ =>
    rw [hvacant hplace] at hentry
    cases hentry
  | link _ hentry _ _ _ =>
    rw [hvacant hplace] at hentry
    cases hentry

theorem Linkless.start (h : Linkless t) (path : Path) : t.entry? (t.start path) = some .directory := by
  rw [FileTree.start]
  split
  · rfl
  · exact h.home

/-- **The old directory is removed from where its path leads**, and the path comes to a directory still. -/
theorem removeTree_comesTo (h : Linkless t) (hremove : t.removeTree dir = (.ok (), t')) :
    ∃ P, P = endsAt (t.start dir) dir.parts ∧ P ≠ [] ∧ t' = t.remove P ∧
      ∃ before rest place, dir.parts = before ++ rest ∧ t'.ComesTo dir.slashes before place := by
  obtain ⟨P, Q, hwalk, hdir, hparts, hlast, hagain, rfl⟩ := removeTree_eq_ok hremove
  have hP : P = endsAt (t.start dir) dir.parts := walk_ends hwalk h.linkFree
  have hne : P ≠ [] := (walk_eq_ok.1 hwalk).2.ne_root hparts hlast
  have hoff : ∀ {p}, ¬P <+: p → t.entry? p = some .directory → FileTree.entry? (t.remove P) p = some .directory := by
    intro p hp hdir
    rw [entry?_remove hne, if_neg hp, hdir]
  refine ⟨P, hP, hne, rfl, ?_⟩
  -- the working directory may stand in the one that is removed; the path then climbs out of it
  by_cases hstart : P <+: t.start dir
  · have hcleared : (t.clear P).LinkFree [] := by
      refine linkFree_of_new h.linkFree fun p => ?_
      rw [entry?_clear]
      split
      · exact .inr (.inl rfl)
      · exact .inl rfl
    have hQ : Q = P := (walk_ends hagain hcleared).trans hP.symm
    obtain ⟨before, rest, hsplit, hclimb⟩ := (walk_eq_ok.1 hagain).2.climb hQ hstart hparts hlast
    refine ⟨before, rest, P.dropLast, hsplit, hclimb _, hoff ?_ (h.wellFormed.directory_dropLast hdir)⟩
    intro hpre
    have hlength := hpre.length_le
    rw [List.length_dropLast] at hlength
    exact hne (List.length_eq_zero_iff.1 (by omega))
  · exact ⟨[], dir.parts, t.start dir, rfl, .here, hoff hstart (h.start dir)⟩

/-- What is not as it was outside a place: directories where a beginning of a path leads. -/
def Outside (t t' : FileTree) (dir : Path) (P : Place) : Prop :=
  ∀ p, ¬P <+: p → t'.entry? p = t.entry? p ∨ (t.entry? p = none ∧ t'.entry? p = some .directory ∧
    ∃ above, above <+: dir.parts ∧ t'.walk true ⟨dir.slashes, above⟩ = .ok p)

/-- **The output directory stands empty**, and outside of it are new directories only on its way. -/
theorem prepare_exact (h : Linkless t) (hok : (prepare dir overwrite : StateM FileTree _) t = (.ok (), t')) :
    Walkable dir ∧ ∃ P, Emptied dir P t' ∧ Outside t t' dir P := by
  rw [prepare_eq] at hok
  split at hok
  · split at hok
    · have hstart : t.ComesTo dir.slashes [] (t.start dir) := ⟨.here, h.start dir⟩
      obtain ⟨hgrown, hwalkable, P, hemptied⟩ := createOutput_emptied h.wellFormed hstart rfl hok
      exact ⟨hwalkable, P, hemptied, fun p _ => hgrown.new p⟩
    · cases hok
  split at hok
  · cases hok
  split at hok
  · cases hok
  split at hok
  · rename_i t₁ hremove
    obtain ⟨P, hP, hne, rfl, before, rest, place, hsplit, hcomes⟩ := removeTree_comesTo h hremove
    obtain ⟨hgrown, hwalkable, P', hemptied⟩ := createOutput_emptied (h.wellFormed.remove hne) hcomes hsplit hok
    have hremoved : (t.remove P).LinkFree [] := by
      refine linkFree_of_new h.linkFree fun p => ?_
      rw [entry?_remove hne]
      split
      · exact .inr (.inl rfl)
      · exact .inl rfl
    have hfree : t'.LinkFree [] := linkFree_of_new hremoved fun p => hgrown.adds.new.imp_right .inr
    have hsame : P' = P := by
      rw [hP, hemptied.there.leads.ends hfree, start_congr hgrown.adds.home]
      rfl
    subst hsame
    refine ⟨hwalkable, P', hemptied, fun p hp => ?_⟩
    have hnew := hgrown.new p
    rwa [entry?_remove hne, if_neg hp] at hnew
  · cases hok

/-! ## The generated tree -/

/-- The names under which a file stands in the output directory. -/
def placed (file : Emit.File) : List String := (Path.ofText file.path).parts

/-- **Files that stand apart**: their paths go straight down, and none of them is that of another file or leads through it. -/
structure Apart (files : List Emit.File) : Prop where
  plain : ∀ file ∈ files, (Path.ofText file.path).plain = true
  apart : files.Pairwise fun a b => ¬placed a <+: placed b ∧ ¬placed b <+: placed a

instance (files : List Emit.File) : Decidable (Apart files) :=
  decidable_of_iff ((∀ file ∈ files, (Path.ofText file.path).plain = true) ∧
    files.Pairwise fun a b => ¬placed a <+: placed b ∧ ¬placed b <+: placed a) ⟨fun h => ⟨h.1, h.2⟩, fun h => ⟨h.plain, h.apart⟩⟩

/-- **The generated tree**: what stands in the output directory under these names. -/
def generated (files : List Emit.File) (names : List String) : Option Entry :=
  match files.find? fun file => placed file = names with
  | some file => some (.file file.contents)
  | none => if names = [] ∨ ∃ file ∈ files, names <+: placed file then some .directory else none

variable {files done rest : List Emit.File} {file : Emit.File}

theorem Apart.eq_of_isPrefix (h : Apart files) : ∀ a ∈ files.map placed, ∀ b ∈ files.map placed, a <+: b → a = b := by
  intro a ha b hb hpre
  obtain ⟨f, hf, rfl⟩ := List.mem_map.1 ha
  obtain ⟨g, hg, rfl⟩ := List.mem_map.1 hb
  let rel (a b : Emit.File) : Prop := placed a <+: placed b → placed a = placed b
  have hforth : files.Pairwise rel := h.apart.imp fun hab hpre => absurd hpre hab.1
  have hback : files.Pairwise (flip rel) := h.apart.imp fun hab hpre => absurd hpre hab.2
  exact hforth.forall_of_forall_of_flip (fun _ _ _ => rfl) hback hf hg hpre

/-- **One more file in the generated tree**: it and the directories on its way. -/
theorem generated_concat (hapart : ∀ d ∈ done, ¬placed d <+: placed file) (names : List String) :
    generated (done ++ [file]) names = if names = placed file then some (.file file.contents)
      else if names <+: placed file then some .directory else generated done names := by
  have hnone : names <+: placed file → done.find? (fun d => placed d = names) = none := by
    intro hpre
    rw [List.find?_eq_none]
    intro d hd heq
    rw [← of_decide_eq_true heq] at hpre
    exact hapart d hd hpre
  rw [generated, List.find?_append]
  by_cases heq : names = placed file
  · rw [hnone (heq ▸ List.prefix_refl _), if_pos heq, List.find?_cons_of_pos (by simp [heq])]
    rfl
  rw [if_neg heq, List.find?_cons_of_neg (by simpa using Ne.symm heq), List.find?_nil, Option.or_none]
  by_cases hpre : names <+: placed file
  · rw [hnone hpre, if_pos hpre]
    exact if_pos (.inr ⟨file, by simp, hpre⟩)
  · have hiff : (names = [] ∨ ∃ f ∈ done ++ [file], names <+: placed f) ↔ names = [] ∨ ∃ f ∈ done, names <+: placed f := by
      simp [or_and_right, exists_or, hpre]
    rw [if_neg hpre, generated]
    simp only [hiff]

/-! ## File by file -/

/-- **An output directory that holds files**: these and the directories on their ways, and nothing else. -/
structure Holding (dir : Path) (P : Place) (base : FileTree) (done : List Emit.File) (t : FileTree) : Prop where
  wellFormed : t.WellFormed
  there : t.ComesTo dir.slashes dir.parts P
  below : ∀ names, t.entry? (P ++ names) = generated done names
  outside : ∀ p, ¬P <+: p → t.entry? p = base.entry? p
  home : t.home = base.home

theorem Emptied.holding (h : Emptied dir P t) : Holding dir P t [] t := by
  refine ⟨h.wellFormed, h.there, fun names => ?_, fun _ _ => rfl, rfl⟩
  by_cases hnames : names = []
  · rw [hnames, List.append_nil, h.there.directory]
    rfl
  · rw [h.empty names hnames]
    simp [generated, hnames]

theorem Holding.filled (h : Holding dir P base done t) (hdone : ∀ file ∈ done, file ∈ files) :
    Filled dir P (files.map placed) t := by
  refine ⟨h.wellFormed, h.there, fun r hr => ?_⟩
  rw [h.below, generated]
  split
  · rename_i file hfound
    have hplaced : decide (placed file = r) = true := List.find?_some (p := fun f => decide (placed f = r)) hfound
    rw [decide_eq_true_iff] at hplaced
    exact .inr (.inr ⟨_, rfl, hplaced ▸ List.mem_map_of_mem (hdone file (List.mem_of_find?_eq_some hfound))⟩)
  · rename_i hfound
    split
    · rename_i hway
      obtain ⟨file, hfile, hpre⟩ := hway.resolve_left hr
      refine .inr (.inl ⟨rfl, placed file, List.mem_map_of_mem (hdone file hfile), hpre, ?_⟩)
      rintro rfl
      exact absurd (List.find?_eq_none.1 hfound file hfile) (by simp)
    · exact .inl rfl

/-- A file that is written has a path that can be walked, and that leads to no directory. -/
theorem writeFile_eq_ok (hok : (writeFile path text : StateM FileTree _) t = (.ok (), t')) :
    ∃ t₁ p, AddsDirectories t t₁ ∧ t₁.walk true path = .ok p ∧ t₁.entry? p ≠ some .directory := by
  have hadds : AddsDirectories t ((makeDirectories path.parent true : StateM FileTree _) t).2 := makeUpwards_adds _ _ true t
  rw [writeFile_eq] at hok
  split at hok
  · cases hok
  · rename_i t₁ hmake
    rw [hmake] at hadds
    unfold FileTree.writeText at hok
    split at hok
    · cases hok
    · rename_i p hwalk
      split at hok
      · cases hok
      · rename_i hfree
        exact ⟨t₁, p, hadds, hwalk, hfree⟩

/-- The path of a file that is written goes down from the output directory, by one name or more. -/
theorem Holding.walked (h : Holding dir P base done t) (hplain : (Path.ofText file.path).plain = true)
    (hok : (Files.writeFile (dir.join (.ofText file.path)) text : StateM FileTree _) t = (.ok (), t')) :
    Walkable (dir.join (.ofText file.path)) ∧ placed file ≠ [] ∧ ∀ name ∈ placed file, Downward name := by
  obtain ⟨hrelative, hup⟩ := Path.plain_iff.1 hplain
  have hjoin : dir.join (.ofText file.path) = ⟨dir.slashes, dir.parts ++ placed file⟩ := by
    rw [Path.join, hrelative]
    rfl
  obtain ⟨t₁, p, hadds, hwalk, hfree⟩ := writeFile_eq_ok hok
  obtain ⟨hwalkable, hleads⟩ := walk_eq_ok.1 hwalk
  rw [hjoin] at hleads
  refine ⟨hwalkable, fun hnil => ?_, fun name hname => ?_⟩
  -- a file without a name would be written over the output directory itself
  · have hcomes := h.there.kept hadds.home fun he => .inl (hadds.keeps he)
    rw [hnil, List.append_nil] at hleads
    obtain rfl : P = p := Except.ok.inj (hcomes.leads.walkLinks.symm.trans hleads.walkLinks)
    exact hfree hcomes.directory
  · refine hleads.downward name (List.mem_append_right _ hname) ?_
    rintro rfl
    exact hup hname

/-- **One file more**: it stands in the output directory, with the directories on its way. -/
theorem Holding.writeFile (h : Holding dir P base done t) (hfiles : Apart files) (hsplit : files = done ++ file :: rest)
    (hok : (Files.writeFile (dir.join (.ofText file.path)) file.contents : StateM FileTree _) t = (.ok (), t')) :
    Holding dir P base (done ++ [file]) t' := by
  have hmem : file ∈ files := by simp [hsplit]
  have hapart : ∀ d ∈ done, ¬placed d <+: placed file := by
    intro d hd
    have hpairs := hfiles.apart
    rw [hsplit, List.pairwise_append] at hpairs
    exact (hpairs.2.2 d hd file List.mem_cons_self).1
  have hplain := hfiles.plain file hmem
  obtain ⟨hwalkable, hne, hnames⟩ := h.walked hplain hok
  obtain ⟨names, name, hparts⟩ : ∃ names name, placed file = names ++ [name] := ⟨_, _, (List.dropLast_concat_getLast hne).symm⟩
  have hfilled : Filled dir P (files.map placed) t := h.filled fun f hf => hsplit ▸ List.mem_append_left _ hf
  obtain ⟨t₁, hway, hfree, hwritten⟩ := hfilled.writeFile_eq hfiles.eq_of_isPrefix (Path.plain_iff.1 hplain).1 hparts hnames
    hwalkable (List.mem_map_of_mem hmem) file.contents
  obtain rfl : t₁.put (P ++ names ++ [name]) (.file file.contents) = t' := congrArg Prod.snd (hwritten.symm.trans hok)
  have hput := hfilled.put (hparts ▸ List.mem_map_of_mem hmem) hway hfree file.contents
  refine ⟨hput.wellFormed, hput.there, fun r => ?_, fun p hp => ?_, hway.adds.home.trans h.home⟩
  · rw [hway.entry?_put, generated_concat hapart, hparts, h.below]
  · have hoff : p ≠ P ++ names ++ [name] := by
      rintro rfl
      exact hp (by rw [List.append_assoc]; exact List.prefix_append _ _)
    rw [entry?_put (by simp), if_neg hoff, ← h.outside p hp]
    by_cases hpre : p <+: P ++ names
    -- above the output directory are directories, before and after
    · obtain ⟨s, rfl⟩ := (List.prefix_or_prefix_of_prefix hpre (List.prefix_append _ _)).resolve_right hp
      have hdir := h.wellFormed.directory_above h.there.directory
      rw [hdir, hway.adds.keeps hdir]
    · exact hway.elsewhere hpre

theorem Holding.writeFiles (hfiles : Apart files) : ∀ {rest done : List Emit.File} {t : FileTree} {written : List Path},
    Holding dir P base done t → files = done ++ rest →
      (Files.writeFiles dir rest : StateM FileTree _) t = (.ok written, t') →
        written = rest.map (fun file => dir.join (.ofText file.path)) ∧ Holding dir P base files t'
  | [], done, t, written, h, hsplit, hok => by
    rw [List.append_nil] at hsplit
    cases hok
    exact ⟨rfl, hsplit ▸ h⟩
  | file :: rest, done, t, written, h, hsplit, hok => by
    rw [writeFiles_cons] at hok
    split at hok
    · cases hok
    · rename_i t₁ hwritten
      have hfile := h.writeFile hfiles hsplit hwritten
      cases hmore : (Files.writeFiles dir rest : StateM FileTree _) t₁ with
      | mk result t₂ =>
        simp only [hmore] at hok
        cases result with
        | error e => cases hok
        | ok paths =>
          cases hok
          obtain ⟨rfl, hall⟩ := Holding.writeFiles hfiles hfile (by rw [hsplit, List.append_assoc]; rfl) hmore
          exact ⟨rfl, hall⟩

/-! ## The whole run -/

/-- What stood when the output directory was empty stands there when it has been filled. -/
theorem Holding.keeps (h : Holding dir P base files t) (hempty : Emptied dir P base) {e : Entry}
    (he : base.entry? q = some e) : t.entry? q = some e := by
  by_cases hq : P <+: q
  · obtain ⟨r, rfl⟩ := hq
    by_cases hr : r = []
    · subst hr
      rw [List.append_nil] at he ⊢
      rw [h.there.directory, ← he, hempty.there.directory]
    · rw [hempty.empty r hr] at he
      cases he
  · rw [h.outside q hq, he]

/-- **A run that succeeds leaves exactly the generated tree** in the output directory, whatever stood there before, and tells
the paths of the files in their order; outside of it there are new directories above it at most.  One that may not overwrite
what is there, or finds something else than a directory, fails and changes nothing. -/
theorem writeLibrary_exact (h : Linkless t) (hfiles : Apart files) (dir : Path) (overwrite : Bool) :
    (∀ written t', (writeLibrary dir files overwrite : StateM FileTree _) t = (.ok written, t') →
      written = files.map (fun file => dir.join (.ofText file.path)) ∧
      ∃ P, t'.walk true dir = .ok P ∧ (∀ names, t'.entry? (P ++ names) = generated files names) ∧ Outside t t' dir P) ∧
    ∀ kind, t.kindOf dir = .ok kind → (overwrite = false ∨ kind = .file) →
      (writeLibrary dir files overwrite : StateM FileTree _) t =
        (.error (if overwrite then .notDirectory dir.text else .alreadyExists dir.text), t) := by
  refine ⟨fun written t' hok => ?_, fun kind hkind hrefused => ?_⟩
  · rw [writeLibrary_eq] at hok
    split at hok
    · cases hok
    rename_i t₁ hprepared
    obtain ⟨hwalkable, P, hemptied, houtside⟩ := prepare_exact h hprepared
    obtain ⟨hwritten, hholding⟩ := hemptied.holding.writeFiles hfiles rfl hok
    refine ⟨hwritten, P, hholding.there.walk hwalkable, hholding.below, fun p hp => ?_⟩
    rw [hholding.outside p hp]
    refine (houtside p hp).imp_right ?_
    rintro ⟨hnone, hdir, above, habove, hwalk⟩
    exact ⟨hnone, hdir, above, habove, walk_kept hholding.home (hholding.keeps hemptied) hdir hwalk⟩
  · rw [writeLibrary_eq, prepare_eq, hkind]
    obtain rfl | rfl := hrefused
    · rfl
    · cases overwrite <;> rfl

/-- A working directory with an output directory of old, and something beside it. -/
def shelf : FileTree :=
  ⟨["shelf"], [(["shelf"], .directory), (["shelf", "notes"], .file "kept"), (["shelf", "out"], .directory),
    (["shelf", "out", "apis"], .file ""), (["shelf", "out", "old.ts"], .file "")]⟩

theorem linkless_shelf : Linkless shelf :=
  ⟨wellFormed_of_entries (by decide), by decide, linkFree_of_entries (by decide)⟩

/-- Two files, one of them in a directory under the name of an old file. -/
def shelfFiles : List Emit.File := [⟨"client.ts", "a"⟩, ⟨"apis/pets.ts", "b"⟩]

theorem shelf_exact : (writeLibrary (.ofText "out") shelfFiles false : StateM FileTree _) shelf =
      (.error (.alreadyExists "out"), shelf) ∧
    ∃ written t' P, (writeLibrary (.ofText "out") shelfFiles true : StateM FileTree _) shelf = (.ok written, t') ∧
      t'.walk true (.ofText "out") = .ok P ∧ ∀ names, t'.entry? (P ++ names) = generated shelfFiles names := by
  have hapart : Apart shelfFiles := by decide +kernel
  refine ⟨(writeLibrary_exact linkless_shelf hapart (.ofText "out") false).2 .directory (by decide +kernel) (.inl rfl), ?_⟩
  have hsucceeds : ((writeLibrary (.ofText "out") shelfFiles true : StateM FileTree _) shelf).1.isOk = true := by
    decide +kernel
  cases hrun : (writeLibrary (.ofText "out") shelfFiles true : StateM FileTree _) shelf with
  | mk result t' =>
    rw [hrun] at hsucceeds
    cases result with
    | error e => cases hsucceeds
    | ok written =>
      obtain ⟨-, P, hwalk, hexact, -⟩ := (writeLibrary_exact linkless_shelf hapart (.ofText "out") true).1 written t' hrun
      exact ⟨written, t', P, rfl, hwalk, hexact⟩

/-- What stood there of old is gone, and a directory is in the place of a file. -/
example : generated shelfFiles ["old.ts"] = none ∧ generated shelfFiles ["apis"] = some .directory := by decide +kernel

end Files
end TypedClient
