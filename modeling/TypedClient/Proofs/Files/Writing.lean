import TypedClient.Files.Write
import TypedClient.Proofs.Files.Walk
/-!
# Writing — what a run does to the files

Making directories adds directories and nothing else (`makeUpwards_adds`).  A library is written into a directory that was
just made (`Made`); from then on a tree is that of before with more below the directory (`Within`), and every file of the
library keeps it so as long as its path stays below its start (`Within.writeFiles`).  So whatever a run changes outside of its
output directory is a directory made where nothing stood (`writeLibrary_below`).
-/
namespace TypedClient
namespace Files

open FileTree

variable {t t' t₀ t₁ : FileTree} {dir path : Path} {p P : Place} {existing overwrite : Bool} {slashes : Nat}
  {parts : List String}

/-! ## Runs in memory, step by step -/

namespace FileTree

/-! The operations in memory -/

theorem kindOf_apply (path : Path) (t : FileTree) :
    (FileSystem.kindOf path : StateM FileTree _) t = (t.kindOf path, t) := by
  change through (fun t => (t.kindOf path, t)) t = _
  rw [through]

theorem readText_apply (path : Path) (t : FileTree) :
    (FileSystem.readText path : StateM FileTree _) t = (t.readText path, t) := by
  change through (fun t => (t.readText path, t)) t = _
  rw [through]

theorem removeTree_apply (path : Path) (t : FileTree) :
    (FileSystem.removeTree path : StateM FileTree _) t = t.removeTree path := by
  change through (fun t => t.removeTree path) t = _
  rw [through]

theorem makeDirectory_apply (path : Path) (t : FileTree) :
    (FileSystem.makeDirectory path : StateM FileTree _) t = t.makeDirectory path := by
  change through (fun t => t.makeDirectory path) t = _
  rw [through]

theorem writeText_apply (path : Path) (text : String) (t : FileTree) :
    (FileSystem.writeText path text : StateM FileTree _) t = t.writeText path text := by
  change through (fun t => t.writeText path text) t = _
  rw [through]

theorem bind_apply {α β : Type} (x : StateM FileTree α) (f : α → StateM FileTree β) (t : FileTree) :
    (x >>= f) t = f (x t).1 (x t).2 := rfl

/-- What is answered where a directory was to be made: it may be there already. -/
def accepted (t : FileTree) (existing : Bool) (path : Path) : Except FileError Unit → Except FileError Unit
  | .ok () => .ok ()
  | .error e => if existing && e != .missing && t.kindOf path = .ok .directory then .ok () else .error e

@[simp] theorem accepted_false (t : FileTree) (path : Path) (made : Except FileError Unit) :
    t.accepted false path made = made := by
  cases made <;> rfl

end FileTree

theorem acceptExisting_eq (existing : Bool) (path : Path) (made : Except FileError Unit) (t : FileTree) :
    (acceptExisting existing path made : StateM FileTree _) t = (t.accepted existing path made, t) := by
  unfold acceptExisting
  split
  · rfl
  · rw [accepted, bne_self_eq_false, Bool.and_false]
    rfl
  · rename_i e hne
    rw [accepted, bne_iff_ne.2 hne, Bool.and_true]
    cases existing with
    | false => rfl
    | true =>
      rw [if_pos rfl, bind_apply, kindOf_apply, Bool.true_and]
      rcases t.kindOf path with _ | _ | _ <;> rfl

theorem makeUpwards_nil (slashes : Nat) (existing : Bool) (t : FileTree) :
    (makeUpwards slashes [] existing : StateM FileTree _) t =
      (accepted (t.makeDirectory ⟨slashes, []⟩).2 existing ⟨slashes, []⟩ (t.makeDirectory ⟨slashes, []⟩).1,
        (t.makeDirectory ⟨slashes, []⟩).2) := by
  rw [makeUpwards, bind_apply, acceptExisting_eq, makeDirectory_apply]

/-- **How directories are made**: the innermost one; where it misses one, those above it first. -/
theorem makeUpwards_cons (slashes : Nat) (part : String) (above : List String) (existing : Bool) (t : FileTree) :
    (makeUpwards slashes (part :: above) existing : StateM FileTree _) t =
      match t.makeDirectory ⟨slashes, (part :: above).reverse⟩ with
      | (.error .missing, t₁) =>
        match (makeUpwards slashes above true : StateM FileTree _) t₁ with
        | (.error e, t₂) => (.error e, t₂)
        | (.ok (), t₂) =>
          (accepted (t₂.makeDirectory ⟨slashes, (part :: above).reverse⟩).2 existing ⟨slashes, (part :: above).reverse⟩
            (t₂.makeDirectory ⟨slashes, (part :: above).reverse⟩).1,
            (t₂.makeDirectory ⟨slashes, (part :: above).reverse⟩).2)
      | (made, t₁) => (t₁.accepted existing ⟨slashes, (part :: above).reverse⟩ made, t₁) := by
  rw [makeUpwards, bind_apply, makeDirectory_apply]
  obtain ⟨made, t₁⟩ := t.makeDirectory ⟨slashes, (part :: above).reverse⟩
  dsimp only
  split
  · rw [bind_apply]
    dsimp only
    generalize (makeUpwards slashes above true : StateM FileTree _) t₁ = upper
    obtain ⟨_ | _, t₂⟩ := upper
    · rfl
    · dsimp only
      rw [bind_apply, makeDirectory_apply, acceptExisting_eq]
  · rename_i hne
    rw [acceptExisting_eq]
    split
    · rename_i heq
      cases heq
      exact absurd rfl hne
    · rename_i heq
      cases heq
      rfl

theorem prepare_eq (dir : Path) (overwrite : Bool) (t : FileTree) :
    (prepare dir overwrite : StateM FileTree _) t =
      match t.kindOf dir with
      | .error e => if e.isAbsence then (createOutput dir : StateM FileTree _) t else (.error (.unusable e), t)
      | .ok kind =>
        if !overwrite then (.error (.alreadyExists dir.text), t)
        else if kind = .file then (.error (.notDirectory dir.text), t)
        else
          match t.removeTree dir with
          | (.ok (), t₁) => (createOutput dir : StateM FileTree _) t₁
          | (.error e, t₁) => (.error (failedAs (.notCleared dir.text) e), t₁) := by
  rw [prepare, bind_apply, kindOf_apply]
  cases t.kindOf dir with
  | error e =>
    dsimp only
    split <;> rfl
  | ok kind =>
    dsimp only
    split
    · rfl
    · split
      · rfl
      · rw [bind_apply, removeTree_apply]
        obtain ⟨_ | _, t₁⟩ := t.removeTree dir <;> rfl

theorem createOutput_eq (dir : Path) (t : FileTree) : (createOutput dir : StateM FileTree _) t =
    (((makeUpwards dir.slashes dir.parts.reverse false : StateM FileTree _) t).1.mapError (failedAs (.notCreated dir.text)),
      ((makeUpwards dir.slashes dir.parts.reverse false : StateM FileTree _) t).2) := rfl

theorem writeFile_eq (target : Path) (contents : String) (t : FileTree) :
    (writeFile target contents : StateM FileTree _) t =
      match (makeDirectories target.parent true : StateM FileTree _) t with
      | (.error e, t₁) => (.error (failedAs (.notWritten target.text) e), t₁)
      | (.ok (), t₁) =>
        ((t₁.writeText target contents).1.mapError (failedAs (.notWritten target.text)), (t₁.writeText target contents).2) := by
  rw [writeFile, bind_apply]
  generalize (makeDirectories target.parent true : StateM FileTree _) t = made
  obtain ⟨_ | _, t₁⟩ := made
  · rfl
  · dsimp only
    rw [bind_apply, writeText_apply]
    rfl

theorem writeFiles_cons (dir : Path) (file : Emit.File) (rest : List Emit.File) (t : FileTree) :
    (writeFiles dir (file :: rest) : StateM FileTree _) t =
      match (writeFile (dir.join (.ofText file.path)) file.contents : StateM FileTree _) t with
      | (.error e, t₁) => (.error e, t₁)
      | (.ok (), t₁) =>
        (((writeFiles dir rest : StateM FileTree _) t₁).1.map (dir.join (.ofText file.path) :: ·),
          ((writeFiles dir rest : StateM FileTree _) t₁).2) := by
  rw [writeFiles, bind_apply]
  generalize (writeFile (dir.join (.ofText file.path)) file.contents : StateM FileTree _) t = made
  obtain ⟨_ | _, t₁⟩ := made <;> rfl

theorem writeLibrary_eq (dir : Path) (files : List Emit.File) (overwrite : Bool) (t : FileTree) :
    (writeLibrary dir files overwrite : StateM FileTree _) t =
      match (prepare dir overwrite : StateM FileTree _) t with
      | (.error e, t₁) => (.error e, t₁)
      | (.ok (), t₁) => (writeFiles dir files : StateM FileTree _) t₁ := by
  rw [writeLibrary, bind_apply]
  generalize (prepare dir overwrite : StateM FileTree _) t = made
  obtain ⟨_ | _, t₁⟩ := made <;> rfl

/-! ## Making directories -/

theorem makeUpwards_adds (slashes : Nat) : ∀ (parts : List String) (existing : Bool) (t : FileTree),
    AddsDirectories t ((makeUpwards slashes parts existing : StateM FileTree _) t).2
  | [], existing, t => by
    have hfirst := addsDirectories_makeDirectory t ⟨slashes, []⟩
    rw [makeUpwards_nil]
    generalize t.makeDirectory ⟨slashes, []⟩ = first at hfirst ⊢
    exact hfirst
  | part :: above, existing, t => by
    have hfirst := addsDirectories_makeDirectory t ⟨slashes, (part :: above).reverse⟩
    rw [makeUpwards_cons]
    generalize t.makeDirectory ⟨slashes, (part :: above).reverse⟩ = first at hfirst ⊢
    split
    · rename_i t₁
      have habove := makeUpwards_adds slashes above true t₁
      split
      · rename_i hupper
        rw [hupper] at habove
        exact hfirst.trans habove
      · rename_i t₂ hupper
        rw [hupper] at habove
        dsimp only
        exact (hfirst.trans habove).trans (addsDirectories_makeDirectory t₂ _)
    · exact hfirst

theorem makeDirectory_eq_ok (h : t.makeDirectory path = (.ok (), t')) :
    ∃ P, t.walk false path = .ok P ∧ t.entry? P = none ∧ t' = t.put P .directory := by
  unfold makeDirectory at h
  split at h
  · cases h
  · rename_i P hwalk
    split at h
    · cases h
    · rename_i hvacant
      cases h
      exact ⟨P, hwalk, by simpa using hvacant, rfl⟩

/-- What cannot be made leaves the files alone. -/
theorem makeDirectory_eq_error {e : FileError} (h : t.makeDirectory path = (.error e, t')) : t' = t := by
  unfold makeDirectory at h
  split at h
  · cases h
    rfl
  · split at h
    · cases h
      rfl
    · cases h

/-- **A directory that was made** stands where nothing stood when all those above it were there. -/
theorem makeUpwards_created (h : (makeUpwards slashes parts false : StateM FileTree _) t = (.ok (), t')) :
    ∃ t₀ P, (t₀ = t ∨ ∃ part above, parts = part :: above ∧ t₀ = ((makeUpwards slashes above true : StateM FileTree _) t).2) ∧
      t₀.walk false ⟨slashes, parts.reverse⟩ = .ok P ∧ t₀.entry? P = none ∧ t' = t₀.put P .directory := by
  cases parts with
  | nil =>
    rw [makeUpwards_nil] at h
    simp only [accepted_false, Prod.eta] at h
    obtain ⟨P, hwalk, hvacant, heq⟩ := makeDirectory_eq_ok h
    exact ⟨t, P, .inl rfl, hwalk, hvacant, heq⟩
  | cons part above =>
    rw [makeUpwards_cons] at h
    split at h
    · rename_i t₁ hfirst
      obtain rfl := makeDirectory_eq_error hfirst
      split at h
      · cases h
      · rename_i t₂ hupper
        simp only [accepted_false, Prod.eta] at h
        obtain ⟨P, hwalk, hvacant, heq⟩ := makeDirectory_eq_ok h
        exact ⟨t₂, P, .inr ⟨part, above, rfl, by rw [hupper]⟩, hwalk, hvacant, heq⟩
    · rename_i hfirst
      simp only [accepted_false] at h
      obtain ⟨P, hwalk, hvacant, heq⟩ := makeDirectory_eq_ok (hfirst.trans h)
      exact ⟨t, P, .inl rfl, hwalk, hvacant, heq⟩

/-! ## Below the output directory -/

/-- **A directory to be made**: the path leads to a place where nothing stands, and below it are directories at most. -/
structure Made (t₀ : FileTree) (dir : Path) (P : Place) : Prop where
  walk : t₀.walk false dir = .ok P
  vacant : t₀.entry? P = none
  bare : ∀ {p e}, P <+: p → t₀.entry? p = some e → e = .directory

/-- **A tree with more below a place**: there is a directory now, without links, and what stood is there still. -/
structure Within (t₀ : FileTree) (P : Place) (t : FileTree) : Prop where
  home : t.home = t₀.home
  keeps : ∀ {p e}, t₀.entry? p = some e → t.entry? p = some e
  top : t.entry? P = some .directory
  outside : ∀ {p}, ¬P <+: p → t.entry? p = t₀.entry? p ∨ t.entry? p = some .directory
  linkFree : t.LinkFree P

theorem Made.within (h : Made t₀ dir P) : Within t₀ P (t₀.put P .directory) := by
  have hne : P ≠ [] := ne_nil_of_ne_directory (by rw [h.vacant]; nofun)
  have hadds := addsDirectories_put h.vacant
  refine ⟨rfl, hadds.keeps, ?_, fun _ => hadds.new, fun p target hp hlink => ?_⟩
  · rw [entry?_put hne, if_pos rfl]
  · cases h.bare hp (hadds.link hlink)

theorem Within.addsDirectories (h : Within t₀ P t) (hadds : AddsDirectories t t') : Within t₀ P t' := by
  refine ⟨hadds.home.trans h.home, fun he => hadds.keeps (h.keeps he), hadds.keeps h.top, fun {p} hp => ?_,
    fun p target hp hlink => h.linkFree p target hp (hadds.link hlink)⟩
  obtain heq | hdir := hadds.new (p := p)
  · rw [heq]
    exact h.outside hp
  · exact .inr hdir

theorem Within.same_or_new (h : Within t₀ P t) (hp : ¬P <+: p) :
    t.entry? p = t₀.entry? p ∨ t₀.entry? p = none ∧ t.entry? p = some .directory := by
  cases hp₀ : t₀.entry? p with
  | some e => exact .inl (h.keeps hp₀)
  | none => exact (hp₀ ▸ h.outside hp).imp_right fun hdir => ⟨rfl, hdir⟩

/-- A file that is put below the directory, where none of the directories is. -/
theorem Within.put (h : Within t₀ P t) (hmade : Made t₀ dir P) (hp : P <+: p) (hfree : t.entry? p ≠ some .directory)
    (text : String) : Within t₀ P (t.put p (.file text)) := by
  have hne : p ≠ [] := ne_nil_of_ne_directory hfree
  refine ⟨h.home, fun {q e} he => ?_, ?_, fun {q} hq => ?_, fun q target hq => ?_⟩
  · rw [entry?_put hne]
    split
    -- what stood at the file's place before was a directory, and would be there still
    · rename_i hqp
      subst hqp
      cases hmade.bare hp he
      exact absurd (h.keeps he) hfree
    · exact h.keeps he
  · rw [entry?_put hne, if_neg]
    · exact h.top
    · rintro rfl
      exact hfree h.top
  · rw [entry?_put hne, if_neg]
    · exact h.outside hq
    · rintro rfl
      exact hq hp
  · rw [entry?_put hne]
    split
    · nofun
    · exact h.linkFree q target hq

/-- The path of the output directory leads to it, and a walk goes on from there. -/
theorem Within.leads (h : Within t₀ P t) (hmade : Made t₀ dir P) : Leads t false 40 (t.start dir) dir.parts P := by
  obtain ⟨-, hdir⟩ := walk_eq_ok.1 hmade.walk
  rw [start_congr h.home]
  refine hdir.kept (fun he => .inl (h.keeps he)) fun target hlink => ?_
  rw [h.top] at hlink
  cases hlink

/-- **What is looked up below the output directory**: the walk goes through the directory and on. -/
theorem Within.walk (h : Within t₀ P t) (hmade : Made t₀ dir P) {q : Path} (hrelative : q.isAbsolute = false)
    {throughLast : Bool} (hwalk : t.walk throughLast (dir.join q) = .ok p) :
    ∃ m, Leads t throughLast m P q.parts p := by
  obtain ⟨-, hleads⟩ := walk_eq_ok.1 hwalk
  obtain ⟨m, hm⟩ := (h.leads hmade).go_on h.top
  have hjoin : dir.join q = ⟨dir.slashes, dir.parts ++ q.parts⟩ := by
    rw [Path.join, hrelative]
    rfl
  have hstart : t.start (dir.join q) = t.start dir := by
    rw [hjoin]
    rfl
  rw [hstart, hjoin] at hleads
  exact ⟨m, walkLinks_eq_ok.1 ((hm fun _ _ => rfl).symm.trans hleads.walkLinks)⟩

theorem Within.walk_dir (h : Within t₀ P t) (hmade : Made t₀ dir P) (throughLast : Bool) :
    t.walk throughLast dir = .ok P := by
  obtain ⟨hwalkable, -⟩ := walk_eq_ok.1 hmade.walk
  obtain ⟨m, hm⟩ := (h.leads hmade).go_on h.top
  rw [walk_of_walkable hwalkable, ← List.append_nil dir.parts, hm fun _ _ => rfl, walkLinks_nil]

namespace Path

/-- Whether a path is relative and never leads above its start. -/
def inside (path : Path) : Bool :=
  !path.isAbsolute && staysBelow 0 path.parts

theorem inside_iff : path.inside = true ↔ path.isAbsolute = false ∧ staysBelow 0 path.parts = true := by
  rw [inside, Bool.and_eq_true, Bool.not_eq_true']

/-- Whether a path is relative and never goes up. -/
def plain (path : Path) : Bool :=
  !path.isAbsolute && !path.parts.contains ".."

theorem plain_iff : path.plain = true ↔ path.isAbsolute = false ∧ ".." ∉ path.parts := by
  rw [plain, Bool.and_eq_true, Bool.not_eq_true', Bool.not_eq_true', List.contains_eq_mem, decide_eq_false_iff_not]

theorem inside_of_plain (h : path.plain = true) : path.inside = true := by
  obtain ⟨hrelative, hup⟩ := plain_iff.1 h
  exact inside_iff.2 ⟨hrelative, staysBelow_of_not_mem 0 hup⟩

end Path

theorem Within.writeText (h : Within t₀ P t) (hmade : Made t₀ dir P) {q : Path} (hq : q.inside = true) (text : String) :
    Within t₀ P (t.writeText (dir.join q) text).2 := by
  obtain ⟨hrelative, hbelow⟩ := Path.inside_iff.1 hq
  unfold FileTree.writeText
  split
  · exact h
  · rename_i p hwalk
    split
    · exact h
    · rename_i hfree
      obtain ⟨m, hleads⟩ := h.walk hmade hrelative hwalk
      exact h.put hmade (hleads.within h.linkFree (List.append_nil P).symm hbelow) hfree text

theorem Within.writeFile (h : Within t₀ P t) (hmade : Made t₀ dir P) {q : Path} (hq : q.inside = true) (text : String) :
    Within t₀ P ((Files.writeFile (dir.join q) text : StateM FileTree _) t).2 := by
  have hadds : Within t₀ P ((makeDirectories (dir.join q).parent true : StateM FileTree _) t).2 :=
    h.addsDirectories (makeUpwards_adds _ _ true t)
  rw [writeFile_eq]
  split
  · rename_i hmake
    rwa [hmake] at hadds
  · rename_i hmake
    rw [hmake] at hadds
    dsimp only
    exact hadds.writeText hmade hq text

/-- **The files of a library are written below its directory**, also when one of them cannot be written. -/
theorem Within.writeFiles (h : Within t₀ P t) (hmade : Made t₀ dir P) {files : List Emit.File}
    (hfiles : ∀ file ∈ files, (Path.ofText file.path).inside = true) :
    Within t₀ P ((Files.writeFiles dir files : StateM FileTree _) t).2 := by
  induction files generalizing t with
  | nil => exact h
  | cons file rest ih =>
    have hfile := h.writeFile hmade (hfiles file List.mem_cons_self) file.contents
    rw [writeFiles_cons]
    split
    · rename_i hwritten
      rw [hwritten] at hfile
      exact hfile
    · rename_i hwritten
      rw [hwritten] at hfile
      dsimp only
      exact ih hfile fun f hf => hfiles f (List.mem_cons_of_mem _ hf)

/-! ## What is read back -/

theorem readText_eq_ok {text : String} :
    t.readText path = .ok text ↔ ∃ p, t.walk true path = .ok p ∧ t.entry? p = some (.file text) := by
  unfold FileTree.readText
  constructor
  · intro h
    split at h
    · cases h
    · rename_i p hwalk
      split at h
      · rename_i hentry
        cases h
        exact ⟨p, hwalk, hentry⟩
      · cases h
      · cases h
  · rintro ⟨p, hwalk, hentry⟩
    rw [hwalk]
    dsimp only
    rw [hentry]

/-- **A tree where a file at most is another one**: all else that stood is there still. -/
structure Rewrites (t t' : FileTree) (w : Place) : Prop where
  home : t'.home = t.home
  keeps : ∀ {q e}, t.entry? q = some e → t'.entry? q = some e ∨ q = w ∧ ∃ text, e = .file text

theorem Rewrites.readText {w : Place} {text : String} (h : Rewrites t t' w) (hwalk : t.walk true path = .ok p) (hne : p ≠ w)
    (hentry : t.entry? p = some (.file text)) : t'.readText path = .ok text := by
  obtain ⟨hwalkable, hleads⟩ := walk_eq_ok.1 hwalk
  have hentry' : t'.entry? p = some (.file text) := (h.keeps hentry).resolve_right fun hw => hne hw.1
  have hstart := start_congr h.home path
  refine readText_eq_ok.2 ⟨p, walk_eq_ok.2 ⟨hwalkable, ?_⟩, hentry'⟩
  rw [hstart]
  refine hleads.kept (fun he => (h.keeps he).imp_right And.right) fun target hlink => ?_
  rw [hentry'] at hlink
  cases hlink

theorem Within.straight (h : Within t₀ P t) (hmade : Made t₀ dir P) {q : Path} (hq : q.plain = true) {throughLast : Bool}
    (hwalk : t.walk throughLast (dir.join q) = .ok p) : p = P ++ q.parts := by
  obtain ⟨hrelative, hup⟩ := Path.plain_iff.1 hq
  obtain ⟨m, hleads⟩ := h.walk hmade hrelative hwalk
  exact hleads.straight h.linkFree (List.prefix_refl P) hup

theorem Within.rewrites_writeText (h : Within t₀ P t) (hmade : Made t₀ dir P) {q : Path} (hq : q.plain = true)
    (text : String) : Rewrites t (t.writeText (dir.join q) text).2 (P ++ q.parts) := by
  unfold FileTree.writeText
  split
  · exact ⟨rfl, .inl⟩
  · rename_i p hwalk
    have hp := h.straight hmade hq hwalk
    split
    · exact ⟨rfl, .inl⟩
    · rename_i hfree
      refine ⟨rfl, fun {r e} he => ?_⟩
      rw [entry?_put (ne_nil_of_ne_directory hfree)]
      split
      · rename_i hr
        subst hr
        cases e with
        | directory => exact absurd he hfree
        | file old => exact .inr ⟨hp, old, rfl⟩
        | link target => exact absurd he (h.linkFree _ target (hp ▸ List.prefix_append P q.parts))
      · exact .inl he

theorem Within.readText_writeText (h : Within t₀ P t) (hmade : Made t₀ dir P) {q : Path} (hq : q.plain = true) {text : String}
    (hok : t.writeText (dir.join q) text = (.ok (), t')) : t'.readText (dir.join q) = .ok text := by
  have hrewrites := h.rewrites_writeText hmade hq text
  unfold FileTree.writeText at hok hrewrites
  split at hok
  · cases hok
  · rename_i p hwalk
    split at hok
    · cases hok
    · rename_i hfree
      cases hok
      simp only [hwalk] at hrewrites
      have hentry : entry? (t.put p (.file text)) p = some (.file text) := by
        rw [entry?_put (ne_nil_of_ne_directory hfree), if_pos rfl]
      obtain ⟨hwalkable, hleads⟩ := walk_eq_ok.1 hwalk
      refine readText_eq_ok.2 ⟨p, walk_eq_ok.2 ⟨hwalkable, ?_⟩, hentry⟩
      refine hleads.kept (fun he => (hrewrites.keeps he).imp_right And.right) fun target hlink => ?_
      rw [hentry] at hlink
      cases hlink

theorem Rewrites.after {w : Place} (h : Rewrites t₁ t' w) (hadds : AddsDirectories t t₁) : Rewrites t t' w :=
  ⟨h.home.trans hadds.home, fun he => h.keeps (hadds.keeps he)⟩

theorem Within.rewrites_writeFile (h : Within t₀ P t) (hmade : Made t₀ dir P) {q : Path} (hq : q.plain = true)
    (text : String) : Rewrites t ((Files.writeFile (dir.join q) text : StateM FileTree _) t).2 (P ++ q.parts) := by
  have hadds : AddsDirectories t ((makeDirectories (dir.join q).parent true : StateM FileTree _) t).2 :=
    makeUpwards_adds _ _ true t
  rw [writeFile_eq]
  split
  · rename_i hmake
    rw [hmake] at hadds
    exact Rewrites.after ⟨rfl, .inl⟩ hadds
  · rename_i hmake
    rw [hmake] at hadds
    dsimp only
    exact ((h.addsDirectories hadds).rewrites_writeText hmade hq text).after hadds

theorem Within.readText_writeFile (h : Within t₀ P t) (hmade : Made t₀ dir P) {q : Path} (hq : q.plain = true) {text : String}
    (hok : (Files.writeFile (dir.join q) text : StateM FileTree _) t = (.ok (), t')) :
    t'.readText (dir.join q) = .ok text := by
  have hadds : AddsDirectories t ((makeDirectories (dir.join q).parent true : StateM FileTree _) t).2 :=
    makeUpwards_adds _ _ true t
  rw [writeFile_eq] at hok
  split at hok
  · cases hok
  · rename_i t₁ hmake
    rw [hmake] at hadds
    cases hwritten : t₁.writeText (dir.join q) text with
    | mk written t₂ =>
      simp only [hwritten] at hok
      cases written with
      | error e => cases hok
      | ok _ =>
        cases hok
        exact (h.addsDirectories hadds).readText_writeText hmade hq hwritten

/-- What is read under a path that none of the files has is read still when they have been written. -/
theorem Within.readText_kept (h : Within t₀ P t) (hmade : Made t₀ dir P) {q : Path} (hq : q.plain = true) {text : String}
    (hread : t.readText (dir.join q) = .ok text) {files : List Emit.File}
    (hfiles : ∀ file ∈ files, (Path.ofText file.path).plain = true ∧ (Path.ofText file.path).parts ≠ q.parts) :
    ((Files.writeFiles dir files : StateM FileTree _) t).2.readText (dir.join q) = .ok text := by
  induction files generalizing t with
  | nil => exact hread
  | cons file rest ih =>
    obtain ⟨hplain, hne⟩ := hfiles file List.mem_cons_self
    have hrewrites := h.rewrites_writeFile hmade hplain file.contents
    have hwithin := h.writeFile hmade (Path.inside_of_plain hplain) file.contents
    obtain ⟨p, hwalk, hentry⟩ := readText_eq_ok.1 hread
    have hp := h.straight hmade hq hwalk
    have hkept := hrewrites.readText hwalk (fun hw => hne (List.append_cancel_left (hp ▸ hw)).symm) hentry
    rw [writeFiles_cons]
    split
    · rename_i hwritten
      rw [hwritten] at hkept
      exact hkept
    · rename_i hwritten
      rw [hwritten] at hkept hwithin
      dsimp only
      exact ih hwithin hkept fun f hf => hfiles f (List.mem_cons_of_mem _ hf)

/-- **Every file of a library survives its writing**, if their paths go straight down and no two are the same. -/
theorem Within.readText_writeFiles (h : Within t₀ P t) (hmade : Made t₀ dir P) {files : List Emit.File} {written : List Path}
    (hplain : ∀ file ∈ files, (Path.ofText file.path).plain = true)
    (hnodup : (files.map fun file => (Path.ofText file.path).parts).Nodup)
    (hok : (Files.writeFiles dir files : StateM FileTree _) t = (.ok written, t')) :
    ∀ file ∈ files, t'.readText (dir.join (Path.ofText file.path)) = .ok file.contents := by
  induction files generalizing t written with
  | nil => nofun
  | cons file rest ih =>
    have hfile := hplain file List.mem_cons_self
    have hwithin := h.writeFile hmade (Path.inside_of_plain hfile) file.contents
    rw [writeFiles_cons] at hok
    split at hok
    · cases hok
    · rename_i t₁ hwritten
      rw [hwritten] at hwithin
      have hrest := fun f hf => hplain f (List.mem_cons_of_mem file hf)
      obtain ⟨hnew, hnodup⟩ := List.nodup_cons.1 hnodup
      cases hmore : (Files.writeFiles dir rest : StateM FileTree _) t₁ with
      | mk result t₂ =>
        simp only [hmore] at hok
        cases result with
        | error e => cases hok
        | ok paths =>
          cases hok
          intro f hf
          obtain rfl | hf := List.mem_cons.1 hf
          · have hkept := hwithin.readText_kept hmade hfile (h.readText_writeFile hmade hfile hwritten)
              fun g hg => ⟨hrest g hg, fun heq => hnew (List.mem_map.2 ⟨g, hg, heq⟩)⟩
            rwa [hmore] at hkept
          · exact ih hwithin hrest hnodup hmore f hf

/-! ## The whole run -/

/-- **A tree of which something may have been removed**, but only at and below the place that a path led to. -/
structure Cleared (t : FileTree) (dir : Path) (t' : FileTree) : Prop where
  wellFormed : t'.WellFormed
  outside : ∀ p, t'.entry? p = t.entry? p ∨ ∃ P, t.walk true dir = .ok P ∧ P <+: p

theorem removeTree_cleared (h : t.WellFormed) (dir : Path) : Cleared t dir (t.removeTree dir).2 := by
  have hsame : Cleared t dir t := ⟨h, fun _ => .inl rfl⟩
  unfold FileTree.removeTree
  split
  · exact hsame
  · rename_i place hwalk
    obtain ⟨hwalkable, hleads⟩ := walk_eq_ok.1 hwalk
    split
    · rename_i hentry
      have hplace : t.walk true dir = .ok place :=
        walk_eq_ok.2 ⟨hwalkable, hleads.followed fun target hlink => by rw [hentry] at hlink; cases hlink⟩
      have hclear : Cleared t dir (t.clear place) := by
        refine ⟨h.clear, fun p => ?_⟩
        rw [entry?_clear]
        split
        · rename_i hp
          exact .inr ⟨place, hplace, hp.1⟩
        · exact .inl rfl
      split
      · exact hclear
      · rename_i hremovable
        rw [Bool.or_eq_true, List.isEmpty_iff, decide_eq_true_iff, not_or] at hremovable
        have hne := hleads.ne_root hremovable.1 hremovable.2
        split
        · exact hclear
        · refine ⟨h.remove hne, fun p => ?_⟩
          rw [entry?_remove hne]
          split
          · rename_i hp
            exact .inr ⟨place, hplace, hp⟩
          · exact .inl rfl
    · exact hsame
    · exact hsame
    · exact hsame

theorem createOutput_adds (dir : Path) (t : FileTree) : AddsDirectories t ((createOutput dir : StateM FileTree _) t).2 :=
  makeUpwards_adds dir.slashes dir.parts.reverse false t

theorem createOutput_made (h : t.WellFormed) (hok : (createOutput dir : StateM FileTree _) t = (.ok (), t')) :
    ∃ t₀ P, AddsDirectories t t₀ ∧ Made t₀ dir P ∧ t' = t₀.put P .directory := by
  rw [createOutput_eq] at hok
  cases hmake : (makeUpwards dir.slashes dir.parts.reverse false : StateM FileTree _) t with
  | mk made t₁ =>
    simp only [hmake] at hok
    cases made with
    | error e => cases hok
    | ok _ =>
      cases hok
      obtain ⟨t₀, P, hrun, hwalk, hvacant, heq⟩ := makeUpwards_created hmake
      rw [List.reverse_reverse] at hwalk
      have hadds : AddsDirectories t t₀ := by
        rcases hrun with rfl | ⟨_, above, -, rfl⟩
        · exact .refl t₀
        · exact makeUpwards_adds dir.slashes above true t
      have hbefore : t.entry? P = none := by
        by_contra hsome
        obtain ⟨e, he⟩ := Option.ne_none_iff_exists'.1 hsome
        rw [hadds.keeps he] at hvacant
        cases hvacant
      refine ⟨t₀, P, hadds, ⟨hwalk, hvacant, ?_⟩, heq⟩
      rintro _ e ⟨r, rfl⟩ he
      have hnone := h.vacant_below hbefore r
      obtain heq | hdir := hadds.new (p := P ++ r)
      · rw [heq, hnone] at he
        cases he
      · rw [hdir] at he
        exact (Option.some.inj he).symm

/-- **How the output directory is made**: it is refused, or made in a tree of which the old one may have been removed. -/
theorem prepare_cases (h : t.WellFormed) (dir : Path) (overwrite : Bool) : ∃ t₁, Cleared t dir t₁ ∧
    ((∃ e, (prepare dir overwrite : StateM FileTree _) t = (.error e, t₁)) ∨
      (prepare dir overwrite : StateM FileTree _) t = (createOutput dir : StateM FileTree _) t₁) := by
  have hsame : Cleared t dir t := ⟨h, fun _ => .inl rfl⟩
  rw [prepare_eq]
  split
  · split
    · exact ⟨t, hsame, .inr rfl⟩
    · exact ⟨t, hsame, .inl ⟨_, rfl⟩⟩
  · split
    · exact ⟨t, hsame, .inl ⟨_, rfl⟩⟩
    · split
      · exact ⟨t, hsame, .inl ⟨_, rfl⟩⟩
      · have hcleared := removeTree_cleared h dir
        split
        · rename_i t₁ hremove
          rw [hremove] at hcleared
          exact ⟨t₁, hcleared, .inr rfl⟩
        · rename_i e t₁ hremove
          rw [hremove] at hcleared
          exact ⟨t₁, hcleared, .inl ⟨_, rfl⟩⟩

/-- **A written library can be read**: every file of it, if their paths go straight down and no two are the same. -/
theorem writeLibrary_readText (h : t.WellFormed) {files : List Emit.File} {written : List Path}
    (hplain : ∀ file ∈ files, (Path.ofText file.path).plain = true)
    (hnodup : (files.map fun file => (Path.ofText file.path).parts).Nodup)
    (hok : (writeLibrary dir files overwrite : StateM FileTree _) t = (.ok written, t')) :
    ∀ file ∈ files, t'.readText (dir.join (Path.ofText file.path)) = .ok file.contents := by
  obtain ⟨t₁, hcleared, hprepare⟩ := prepare_cases h dir overwrite
  rw [writeLibrary_eq] at hok
  split at hok
  · cases hok
  · rename_i t₂ hmade
    obtain ⟨e, hrefused⟩ | hcreate := hprepare
    · rw [hrefused] at hmade
      cases hmade
    · obtain ⟨t₀, P, -, hnew, rfl⟩ := createOutput_made hcleared.wellFormed (hcreate.symm.trans hmade)
      exact hnew.within.readText_writeFiles hnew hplain hnodup hok

/-- **What a library changes in the files**, whether it could be written or not: what is below the place that the output
path led to or leads to now, and directories where nothing stood. -/
theorem writeLibrary_below (h : t.WellFormed) (dir : Path) (overwrite : Bool) {files : List Emit.File}
    (hfiles : ∀ file ∈ files, (Path.ofText file.path).inside = true) (p : Place) :
    let t' := ((writeLibrary dir files overwrite : StateM FileTree _) t).2
    t'.entry? p = t.entry? p ∨ (t.entry? p = none ∧ t'.entry? p = some .directory) ∨
      ∃ P, (t.walk true dir = .ok P ∨ t'.walk true dir = .ok P) ∧ P <+: p := by
  intro t'
  obtain ⟨t₁, hcleared, hprepare⟩ := prepare_cases h dir overwrite
  obtain hsame | ⟨P, hwalk, hp⟩ := hcleared.outside p
  case inr => exact .inr (.inr ⟨P, .inl hwalk, hp⟩)
  rw [← hsame]
  obtain ⟨e, hrefused⟩ | hcreate := hprepare
  · have ht' : t' = t₁ := by
      simp only [t', writeLibrary_eq, hrefused]
    exact .inl (by rw [ht'])
  · cases hmake : (createOutput dir : StateM FileTree _) t₁ with
    | mk made t₂ =>
      have hadds := createOutput_adds dir t₁
      rw [hmake] at hadds
      cases made with
      | error e =>
        have ht' : t' = t₂ := by
          simp only [t', writeLibrary_eq, hcreate, hmake]
        rw [ht']
        exact (hadds.same_or_new p).imp_right .inl
      | ok _ =>
        have ht' : t' = ((writeFiles dir files : StateM FileTree _) t₂).2 := by
          simp only [t', writeLibrary_eq, hcreate, hmake]
        obtain ⟨t₀, P, hadds₀, hmade, rfl⟩ := createOutput_made hcleared.wellFormed hmake
        have hwithin := hmade.within.writeFiles hmade hfiles
        rw [← ht'] at hwithin
        by_cases hp : P <+: p
        · exact .inr (.inr ⟨P, .inr (hwithin.walk_dir hmade true), hp⟩)
        · obtain hsame | ⟨hnone, hdir⟩ := hadds₀.same_or_new p
          · rw [← hsame]
            exact (hwithin.same_or_new hp).imp_right .inl
          · exact .inr (.inl ⟨hnone, hwithin.keeps hdir⟩)

end Files
end TypedClient
