import TypedClient.Build
import TypedClient.Proofs.Files.Encoded
import TypedClient.Proofs.Files.Fitting
/-!
# Failing — what a run that fails leaves behind

A run that fails before it writes leaves the files as they were, whatever reads its YAML and whatever can be encoded.  One
that fails in writing has changed them in general: the output directory is made, or made anew, before the first file is
written, and what was written before the failure stays (`nestedIndex_partial`).  Along a steady output path and with a library
that fits and can be encoded, writing does not fail once it has begun, so that every failing run leaves the files as they were
(`failing_run_unchanged`).
-/
namespace TypedClient

open Files Files.FileTree

namespace Files

variable {t t' : FileTree} {encoding : Encoding} {dir : Path} {overwrite : Bool}

/-- A run in memory, behind an encoding. -/
abbrev Encoded := ReaderT Encoding (StateM FileTree)

theorem encoded_bind {α β : Type} (x : Encoded α) (f : α → Encoded β) (encoding : Encoding) (t : FileTree) :
    (x >>= f) encoding t = f (x encoding t).1 encoding (x encoding t).2 := rfl

theorem map_apply {α β : Type} (f : α → β) (x : StateM FileTree α) (t : FileTree) :
    (f <$> x) t = (f (x t).1, (x t).2) := rfl

/-! ## Refusals -/

/-- Whether an error of writing refuses the output directory for what stands there. -/
def WriteError.refuses : WriteError → Bool
  | .alreadyExists _ | .notDirectory _ => true
  | _ => false

theorem failedAs_refuses {told : WriteError} (h : told.refuses = false) (e : FileError) :
    (failedAs told e).refuses = false := by
  cases e <;> first | exact h | rfl

/-- An answer that refuses no output directory. -/
def Unrefused {α : Type} (answer : Except WriteError α) : Prop :=
  ∀ e, answer = .error e → e.refuses = false

theorem Unrefused.ok {α : Type} (a : α) : Unrefused (.ok a) := fun _ h => by cases h

theorem Unrefused.error {α : Type} {e : WriteError} (h : e.refuses = false) : Unrefused (.error e : Except WriteError α) := by
  rintro _ ⟨⟩
  exact h

theorem Unrefused.map {α β : Type} {answer : Except WriteError α} (h : Unrefused answer) (f : α → β) :
    Unrefused (answer.map f) := by
  cases answer with
  | ok a => exact .ok (f a)
  | error e => exact .error (h e rfl)

theorem Unrefused.mapError {told : WriteError} (h : told.refuses = false) (made : Except FileError Unit) :
    Unrefused (made.mapError (failedAs told)) := by
  cases made with
  | ok a => exact .ok a
  | error e => exact .error (failedAs_refuses h e)

theorem createOutput_unrefused (dir : Path) (t : FileTree) : Unrefused ((createOutput dir : StateM FileTree _) t).1 := by
  rw [createOutput_eq]
  exact .mapError rfl _

theorem writeFile_unrefused (target : Path) (contents : String) (t : FileTree) :
    Unrefused ((writeFile target contents : Encoded _) encoding t).1 := by
  rw [writeFile, encoded_bind]
  cases ((makeDirectories target.parent true : Encoded _) encoding t).1 with
  | error cause => exact .error (failedAs_refuses rfl cause)
  | ok _ => exact .mapError rfl _

theorem writeFiles_unrefused (dir : Path) (files : List Emit.File) (t : FileTree) :
    Unrefused ((writeFiles dir files : Encoded _) encoding t).1 := by
  induction files generalizing t with
  | nil => exact .ok []
  | cons file rest ih =>
    rw [writeFiles, encoded_bind]
    cases hwritten : ((writeFile (dir.join (.ofText file.path)) file.contents : Encoded _) encoding t).1 with
    | error e => exact .error (writeFile_unrefused _ _ t e hwritten)
    | ok _ => exact (ih _).map _

/-- **An output directory that is refused for what stands there** is left alone. -/
theorem prepare_refused {e : WriteError} (he : e.refuses = true)
    (h : (prepare dir overwrite : StateM FileTree _) t = (.error e, t')) : t' = t := by
  have hcreate : ∀ t₁, (createOutput dir : StateM FileTree _) t₁ ≠ (.error e, t') := by
    intro t₁ hcreate
    have := createOutput_unrefused dir t₁ e (by rw [hcreate])
    rw [he] at this
    cases this
  rw [prepare_eq] at h
  split at h
  · split at h
    · exact absurd h (hcreate t)
    · cases h
      rfl
  · split at h
    · cases h
      rfl
    · split at h
      · cases h
        rfl
      · split at h
        · exact absurd h (hcreate _)
        · cases h
          rw [failedAs_refuses rfl] at he
          cases he

theorem writeLibrary_refused {files : List Emit.File} {e : WriteError} (he : e.refuses = true)
    (h : (writeLibrary dir files overwrite : Encoded _) encoding t = (.error e, t')) : t' = t := by
  cases hdir : encoding.encodesPath dir with
  | false =>
    rw [writeLibrary_unnamed hdir] at h
    cases h
    rfl
  | true =>
    rw [writeLibrary, encoded_bind, prepare_encoded hdir] at h
    cases hprepared : (prepare dir overwrite : StateM FileTree _) t with
    | mk answer t₁ =>
      rw [hprepared] at h
      cases answer with
      | error _ =>
        cases h
        exact prepare_refused he hprepared
      | ok _ =>
        have hunrefused := writeFiles_unrefused dir files t₁ e (congrArg Prod.fst h)
        rw [he] at hunrefused
        cases hunrefused

end Files

namespace Build

variable {loader : Yaml.Loader} {encoding : Encoding} {t t' : FileTree} {settings : Settings}

/-! ## Runs in memory -/

/-- Whether an error is told before anything is written. -/
def beforeWriting : BuildError → Bool
  | .load _ | .expand _ | .generate _ => true
  | .write e => e.refuses
  | .outside _ => false

/-- The document that a run reads. -/
def documentIn (loader : Yaml.Loader) (encoding : Encoding) (t : FileTree) (settings : Settings) : Except LoadError Node :=
  ((readDocument loader settings.inputPath : Encoded _) encoding t).1

theorem readDocument_unchanged (path : Path) (t : FileTree) : ((readDocument loader path : Encoded _) encoding t).2 = t := by
  have hread : ((FileSystem.readText path : Encoded _) encoding t).2 = t := by
    change (atPath path (FileSystem.readText path : StateM FileTree _) encoding t).2 = t
    unfold atPath
    split
    · rw [readText_apply]
    · rfl
  rw [readDocument, encoded_bind, hread]
  cases ((FileSystem.readText path : Encoded _) encoding t).1 with
  | error _ => rfl
  | ok text =>
    dsimp only
    cases loadDocument loader path.text text <;> rfl

/-- **How a run goes**: it fails with nothing written, or it writes what it generated. -/
theorem run_eq (loader : Yaml.Loader) (encoding : Encoding) (settings : Settings) (t : FileTree) :
    (run loader settings : Encoded _) encoding t =
      match documentIn loader encoding t settings with
      | .error e => (.error (.load e), t)
      | .ok document =>
        match generated document settings with
        | .error e => (.error e, t)
        | .ok generation => (write settings generation : Encoded _) encoding t := by
  rw [run, encoded_bind, readDocument_unchanged, documentIn]
  cases ((readDocument loader settings.inputPath : Encoded _) encoding t).1 with
  | error e => rfl
  | ok document =>
    dsimp only
    cases generated document settings <;> rfl

theorem write_eq (settings : Settings) (generation : Generation) (encoding : Encoding) (t : FileTree) :
    (write settings generation : Encoded _) encoding t =
      match (writeLibrary settings.outputDir generation.files settings.overwrite : Encoded _) encoding t with
      | (.error e, t₁) => (.error (.write e), t₁)
      | (.ok written, t₁) => ((seenFrom settings.outputDir written).map
          (⟨settings.outputDir, ·, generation.apiNames, generation.warnings⟩), t₁) := by
  rw [write, encoded_bind]
  generalize (writeLibrary settings.outputDir generation.files settings.overwrite : Encoded _) encoding t = result
  obtain ⟨_ | _, t₁⟩ := result <;> rfl

theorem seenFrom_error {paths : List Path} {e : BuildError} (h : seenFrom settings.outputDir paths = .error e) :
    beforeWriting e = false := by
  induction paths with
  | nil => cases h
  | cons path rest ih =>
    rw [seenFrom] at h
    split at h
    · cases hrest : seenFrom settings.outputDir rest with
      | ok _ =>
        rw [hrest] at h
        cases h
      | error _ =>
        rw [hrest] at h
        cases h
        exact ih hrest
    · cases h
      rfl

theorem seenFrom_joined (dir : Path) {files : List Emit.File}
    (h : ∀ file ∈ files, (Path.ofText file.path).isAbsolute = false) :
    ∃ seen, seenFrom dir (files.map fun file => dir.join (.ofText file.path)) = .ok seen := by
  induction files with
  | nil => exact ⟨[], rfl⟩
  | cons file rest ih =>
    obtain ⟨seen, hseen⟩ := ih fun f hf => h f (List.mem_cons_of_mem _ hf)
    have hfirst : (dir.join (.ofText file.path)).relativeTo? dir = some ⟨0, (Path.ofText file.path).parts⟩ := by
      rw [Path.join, h file List.mem_cons_self, Path.relativeTo?]
      simp
    refine ⟨⟨0, (Path.ofText file.path).parts⟩ :: seen, ?_⟩
    rw [List.map_cons, seenFrom, hfirst]
    dsimp only
    rw [hseen]
    rfl

/-! ## Failing runs -/

/-- Of the errors of writing, only refusals are told before anything is written. -/
theorem write_refused {generation : Generation} {e : BuildError} (he : beforeWriting e = true)
    (hwrite : (write settings generation : Encoded _) encoding t = (.error e, t')) : t' = t := by
  rw [write_eq] at hwrite
  split at hwrite
  · rename_i hlibrary
    cases hwrite
    exact writeLibrary_refused he hlibrary
  · rename_i written t₁ _
    cases hseen : seenFrom settings.outputDir written with
    | ok _ =>
      rw [hseen] at hwrite
      cases hwrite
    | error _ =>
      rw [hseen] at hwrite
      cases hwrite
      rw [seenFrom_error hseen] at he
      cases he

/-- Writing a library that fits and can be encoded fails before it has begun, if it fails. -/
theorem write_fits {generation : Generation} {e : BuildError} (hwellFormed : t.WellFormed)
    (hsteady : Steady t settings.outputDir settings.overwrite) (hfits : Fits settings.outputDir generation.files)
    (hencodes : ∀ file ∈ generation.files, encoding.encodesFile file = true)
    (hwrite : (write settings generation : Encoded _) encoding t = (.error e, t')) : t' = t := by
  rw [write_eq] at hwrite
  cases hdir : encoding.encodesPath settings.outputDir with
  | false =>
    rw [writeLibrary_unnamed hdir] at hwrite
    cases hwrite
    rfl
  | true =>
    rw [writeLibrary_encoded hdir hencodes] at hwrite
    obtain ⟨refused, hlibrary⟩ | ⟨t₁, hlibrary⟩ := writeLibrary_fits hwellFormed hsteady hfits
    · rw [hlibrary] at hwrite
      cases hwrite
      rfl
    · obtain ⟨seen, hseen⟩ := seenFrom_joined settings.outputDir fun file hfile => (hfits.1 file hfile).1
      rw [hlibrary] at hwrite
      dsimp only at hwrite
      rw [hseen] at hwrite
      cases hwrite

/-- **A failing run leaves the files as they were**, whatever reads its document and whatever can be encoded, if it fails
before it writes, or if the output path is steady and the generated library fits below it and can be encoded. -/
theorem failing_run_unchanged {e : BuildError} (hrun : (run loader settings : Encoded _) encoding t = (.error e, t'))
    (hcase : beforeWriting e = true ∨ t.WellFormed ∧ Steady t settings.outputDir settings.overwrite ∧
      ∀ document generation, documentIn loader encoding t settings = .ok document →
        generated document settings = .ok generation → Fits settings.outputDir generation.files ∧
          ∀ file ∈ generation.files, encoding.encodesFile file = true) : t' = t := by
  rw [run_eq] at hrun
  cases hdocument : documentIn loader encoding t settings with
  | error _ =>
    rw [hdocument] at hrun
    cases hrun
    rfl
  | ok document =>
    rw [hdocument] at hrun
    dsimp only at hrun
    cases hgenerated : generated document settings with
    | error _ =>
      rw [hgenerated] at hrun
      cases hrun
      rfl
    | ok generation =>
      rw [hgenerated] at hrun
      obtain hearly | ⟨hwellFormed, hsteady, h⟩ := hcase
      · exact write_refused hearly hrun
      · obtain ⟨hfits, hencodes⟩ := h document generation hdocument hgenerated
        exact write_fits hwellFormed hsteady hfits hencodes hrun

/-- **A run whose library holds a text that cannot be encoded** fails.  The output directory was made anew by then, the files
before the text are written, and its own file is empty. -/
theorem run_unwritten {document : Node} {generation : Generation} {before after : List Emit.File} {file : Emit.File}
    (hdocument : documentIn loader encoding t settings = .ok document)
    (hgenerated : generated document settings = .ok generation) (hfiles : generation.files = before ++ file :: after)
    (hdir : encoding.encodesPath settings.outputDir = true) (hbefore : ∀ f ∈ before, encoding.encodesFile f = true)
    (hpath : encoding.encodesPath (.ofText file.path) = true) (htext : encoding.encodesText file.contents = false) :
    ∃ e, (run loader settings : Encoded _) encoding t = (.error e,
      ((writeLibrary settings.outputDir (before ++ [⟨file.path, ""⟩]) settings.overwrite : StateM FileTree _) t).2) := by
  rw [run_eq, hdocument]
  dsimp only
  rw [hgenerated]
  dsimp only
  rw [write_eq, hfiles, writeLibrary_unwritten hdir hbefore hpath htext]
  rw [map_apply]
  cases ((writeLibrary settings.outputDir (before ++ [⟨file.path, ""⟩]) settings.overwrite : StateM FileTree _) t).1 <;>
    exact ⟨_, rfl⟩

theorem exists_error (h : ((run loader settings : Encoded _) encoding t).1.isOk = false) :
    ∃ e, (run loader settings : Encoded _) encoding t = (.error e, ((run loader settings : Encoded _) encoding t).2) := by
  generalize (run loader settings : Encoded _) encoding t = made at h ⊢
  obtain ⟨_ | _, t'⟩ := made
  · exact ⟨_, rfl⟩
  · cases h

/-- A working directory with a document and an output directory of old. -/
def desk : FileTree :=
  ⟨["desk"], [(["desk"], .directory), (["desk", "doc.yaml"], .file "openapi: 3.0.0"), (["desk", "out"], .directory),
    (["desk", "out", "old.ts"], .file "")]⟩

theorem wellFormed_desk : desk.WellFormed :=
  wellFormed_of_entries (by decide)

/-- Settings of a library with the usual names and no client. -/
def usual : Settings :=
  { inputPath := .ofText "doc.yaml", outputDir := .ofText "out", emitRuntimeClient := false }

theorem usual_unchanged :
    ∃ e t', (run Yaml.load usual : Encoded _) .utf8 desk = (.error e, t') ∧ t' = desk := by
  have hfails : ((run Yaml.load usual : Encoded _) .utf8 desk).1.isOk = false := by decide +kernel
  obtain ⟨e, hrun⟩ := exists_error hfails
  refine ⟨e, _, hrun, failing_run_unchanged hrun (.inr ⟨wellFormed_desk,
    steady_of_directory wellFormed_desk (by decide) (by decide) (by decide) usual.overwrite, ?_⟩)⟩
  intro document generation hdocument hgenerated
  have hfits : (match documentIn Yaml.load .utf8 desk usual with
    | .ok document =>
      match generated document usual with
      | .ok generation => decide (Fits usual.outputDir generation.files) && generation.files.all Encoding.utf8.encodesFile
      | .error _ => false
    | .error _ => false) = true := by decide +kernel
  rw [hdocument] at hfits
  dsimp only at hfits
  rw [hgenerated] at hfits
  obtain ⟨hfits, hencodes⟩ := Bool.and_eq_true_iff.1 hfits
  exact ⟨of_decide_eq_true hfits, List.all_eq_true.1 hencodes⟩

/-- Settings of a library whose index stands below the file of the definitions, over an output directory of old. -/
def nestedIndex : Settings :=
  { usual with indexModule := "definitions.ts/index.ts", overwrite := true }

/-- **A run that fails at its last file** has removed the old files and leaves the new ones. -/
theorem nestedIndex_partial : ∃ e t', (run Yaml.load nestedIndex : Encoded _) .utf8 desk = (.error e, t') ∧
    t'.entry? ["desk", "out", "old.ts"] = none ∧ t'.entry? ["desk", "out", "definitions.ts"] ≠ none ∧ t' ≠ desk := by
  obtain ⟨hfails, hold, hnew⟩ : ((run Yaml.load nestedIndex : Encoded _) .utf8 desk).1.isOk = false ∧
      FileTree.entry? ((run Yaml.load nestedIndex : Encoded _) .utf8 desk).2 ["desk", "out", "old.ts"] = none ∧
      FileTree.entry? ((run Yaml.load nestedIndex : Encoded _) .utf8 desk).2 ["desk", "out", "definitions.ts"] ≠ none := by
    decide +kernel
  obtain ⟨e, hrun⟩ := exists_error hfails
  refine ⟨e, _, hrun, hold, hnew, fun hsame => hnew ?_⟩
  rw [hsame]
  decide

/-- The desk with a document that escapes a character beyond U+FFFF as two halves. -/
def halvedDesk : FileTree :=
  desk.put ["desk", "doc.yaml"]
    (.file "openapi: 3.0.0\ncomponents:\n schemas:\n  A:\n   type: object\n   description: \"\\uD83D\\uDE00\"\n")

/-- **A run that meets a text that cannot be encoded** has removed the old files and leaves an empty one. -/
theorem halvedDesk_partial :
    ∃ e t', (run Yaml.load { usual with overwrite := true } : Encoded _) .utf8 halvedDesk = (.error e, t') ∧
      t'.entry? ["desk", "out", "old.ts"] = none ∧ t'.entry? ["desk", "out", "definitions.ts"] = some (.file "") := by
  obtain ⟨hfails, hleft⟩ : ((run Yaml.load { usual with overwrite := true } : Encoded _) .utf8 halvedDesk).1.isOk = false ∧
      FileTree.entry? ((run Yaml.load { usual with overwrite := true } : Encoded _) .utf8 halvedDesk).2
        ["desk", "out", "old.ts"] = none ∧
      FileTree.entry? ((run Yaml.load { usual with overwrite := true } : Encoded _) .utf8 halvedDesk).2
        ["desk", "out", "definitions.ts"] = some (.file "") := by
    decide +kernel
  obtain ⟨e, hrun⟩ := exists_error hfails
  exact ⟨e, _, hrun, hleft⟩

end Build
end TypedClient
