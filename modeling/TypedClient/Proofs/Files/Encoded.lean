import TypedClient.Files.Encoding
import TypedClient.Files.Write
/-!
# Encoded — writing where not every text can be encoded

Where everything can be encoded, what a run does behind an encoding is what it does without (`writeLibrary_encoded`).  Where
the output directory cannot be, nothing is looked up or changed (`writeLibrary_unnamed`).  The first text that cannot be
encoded ends the writing like the last file of a shorter library: its file is made and stays empty (`writeLibrary_unwritten`).
-/
namespace TypedClient
namespace Files

variable {m : Type → Type} [Monad m] {encoding : Encoding} {path dir : Path}

/-- Whether path and contents of a file can be encoded. -/
def Encoding.encodesFile (encoding : Encoding) (file : Emit.File) : Bool :=
  encoding.encodesPath (.ofText file.path) && encoding.encodesText file.contents

/-! ## Single operations -/

/-- A step goes the same way on both sides if its beginning and all continuations do. -/
theorem bind_encoded {α β : Type} {x : ReaderT Encoding m α} {y : m α} {f : α → ReaderT Encoding m β} {g : α → m β}
    (hx : x encoding = y) (hf : ∀ a, f a encoding = g a) : (x >>= f) encoding = y >>= g := by
  rw [← hx, ← funext hf]
  rfl

/-- The error, unless the answer is one already. -/
def endedBy {ε α : Type} (e : ε) (answer : Except ε α) : Except ε α :=
  answer.bind fun _ => .error e

/-- A step ends by an error behind the encoding if its beginning does so and all continuations pass the error on. -/
theorem bind_endedBy [LawfulMonad m] {α β ε δ : Type} {e : ε} {e' : δ} {x : ReaderT Encoding m (Except ε α)}
    {y : m (Except ε α)} {f : Except ε α → ReaderT Encoding m (Except δ β)} {g : Except ε α → m (Except δ β)}
    (hx : x encoding = endedBy e <$> y) (hf : ∀ answer, f (endedBy e answer) encoding = endedBy e' <$> g answer) :
    (x >>= f) encoding = endedBy e' <$> (y >>= g) := by
  refine (bind_encoded hx fun _ => rfl).trans ?_
  rw [bind_map_left, map_bind]
  exact bind_congr hf

theorem atPath_encoded {α : Type} (h : encoding.encodesPath path = true) (operation : m (Except FileError α)) :
    atPath path operation encoding = operation :=
  if_pos h

theorem atPath_unnamed {α : Type} (h : encoding.encodesPath path = false) (operation : m (Except FileError α)) :
    atPath path operation encoding = pure (.error .notPath) :=
  if_neg (Bool.eq_false_iff.1 h)

variable [FileSystem m]

theorem acceptExisting_encoded (h : encoding.encodesPath path = true) (existing : Bool) (made : Except FileError Unit) :
    (acceptExisting existing path made : ReaderT Encoding m _) encoding = acceptExisting existing path made := by
  unfold acceptExisting
  split
  · rfl
  · rfl
  · split
    · refine bind_encoded (atPath_encoded h _) fun kind => ?_
      split <;> rfl
    · rfl

theorem encodesPath_above {slashes : Nat} {part : String} {above : List String}
    (h : encoding.encodesPath ⟨slashes, (part :: above).reverse⟩ = true) :
    encoding.encodesPath ⟨slashes, above.reverse⟩ = true := by
  rw [Encoding.encodesPath, List.reverse_cons, List.all_append, Bool.and_eq_true] at h
  exact h.1

theorem makeUpwards_encoded {slashes : Nat} {parts : List String} (h : encoding.encodesPath ⟨slashes, parts.reverse⟩ = true)
    (existing : Bool) :
    (makeUpwards slashes parts existing : ReaderT Encoding m _) encoding = makeUpwards slashes parts existing := by
  induction parts generalizing existing with
  | nil => exact bind_encoded (atPath_encoded h _) fun made => acceptExisting_encoded h existing made
  | cons part above ih =>
    rw [makeUpwards, makeUpwards]
    refine bind_encoded (atPath_encoded h _) fun made => ?_
    split
    · refine bind_encoded (ih (encodesPath_above h) true) fun upper => ?_
      split
      · rfl
      · exact bind_encoded (atPath_encoded h _) fun made => acceptExisting_encoded h existing made
    · exact acceptExisting_encoded h existing _

theorem makeDirectories_encoded (h : encoding.encodesPath path = true) (existing : Bool) :
    (makeDirectories path existing : ReaderT Encoding m _) encoding = makeDirectories path existing := by
  refine makeUpwards_encoded ?_ existing
  rwa [List.reverse_reverse]

theorem createOutput_encoded (h : encoding.encodesPath dir = true) :
    (createOutput dir : ReaderT Encoding m _) encoding = createOutput dir :=
  bind_encoded (makeDirectories_encoded h false) fun _ => rfl

theorem prepare_encoded (h : encoding.encodesPath dir = true) (overwrite : Bool) :
    (prepare dir overwrite : ReaderT Encoding m _) encoding = prepare dir overwrite := by
  refine bind_encoded (atPath_encoded h _) fun kind => ?_
  split
  · split
    · exact createOutput_encoded h
    · rfl
  · split
    · rfl
    · split
      · rfl
      · refine bind_encoded (atPath_encoded h _) fun removed => ?_
        split
        · exact createOutput_encoded h
        · rfl

/-! ## Files -/

theorem encodesPath_parent (h : encoding.encodesPath path = true) : encoding.encodesPath path.parent = true := by
  rw [Encoding.encodesPath, List.all_eq_true] at h ⊢
  exact fun part hpart => h part (List.dropLast_subset _ hpart)

theorem encodesPath_join {q : Path} (hdir : encoding.encodesPath dir = true) (hq : encoding.encodesPath q = true) :
    encoding.encodesPath (dir.join q) = true := by
  unfold Path.join
  split
  · exact hq
  · rw [Encoding.encodesPath, List.all_append, Bool.and_eq_true]
    exact ⟨hdir, hq⟩

theorem writeFile_encoded {contents : String} (hpath : encoding.encodesPath path = true)
    (htext : encoding.encodesText contents = true) :
    (writeFile path contents : ReaderT Encoding m _) encoding = writeFile path contents := by
  refine bind_encoded (makeDirectories_encoded (encodesPath_parent hpath) true) fun made => ?_
  split
  · rfl
  · exact bind_encoded ((if_pos htext).trans (atPath_encoded hpath _)) fun _ => rfl

theorem writeFiles_encoded (hdir : encoding.encodesPath dir = true) {files : List Emit.File}
    (h : ∀ file ∈ files, encoding.encodesFile file = true) :
    (writeFiles dir files : ReaderT Encoding m _) encoding = writeFiles dir files := by
  induction files with
  | nil => rfl
  | cons file rest ih =>
    obtain ⟨hpath, htext⟩ := Bool.and_eq_true_iff.1 (h file List.mem_cons_self)
    rw [writeFiles, writeFiles]
    refine bind_encoded (writeFile_encoded (encodesPath_join hdir hpath) htext) fun written => ?_
    split
    · rfl
    · exact bind_encoded (ih fun f hf => h f (List.mem_cons_of_mem _ hf)) fun _ => rfl

/-- **A library that can be encoded** is written behind the encoding as without. -/
theorem writeLibrary_encoded (hdir : encoding.encodesPath dir = true) {files : List Emit.File}
    (h : ∀ file ∈ files, encoding.encodesFile file = true) (overwrite : Bool) :
    (writeLibrary dir files overwrite : ReaderT Encoding m _) encoding = writeLibrary dir files overwrite := by
  refine bind_encoded (prepare_encoded hdir overwrite) fun prepared => ?_
  split
  · rfl
  · exact writeFiles_encoded hdir h

/-! ## What cannot be encoded -/

variable [LawfulMonad m]

theorem makeUpwards_unnamed {slashes : Nat} {parts : List String}
    (h : encoding.encodesPath ⟨slashes, parts.reverse⟩ = false) :
    (makeUpwards slashes parts false : ReaderT Encoding m _) encoding = pure (.error .notPath) := by
  cases parts with
  | nil => cases h
  | cons part above =>
    rw [makeUpwards]
    exact (bind_encoded (atPath_unnamed h _) fun _ => rfl).trans (pure_bind _ _)

/-- **Under an output path that cannot be encoded** nothing is looked up or changed. -/
theorem writeLibrary_unnamed (h : encoding.encodesPath dir = false) (files : List Emit.File) (overwrite : Bool) :
    (writeLibrary dir files overwrite : ReaderT Encoding m _) encoding = pure (.error (.unusable .notPath)) := by
  have hmade : (makeDirectories dir false : ReaderT Encoding m _) encoding = pure (.error .notPath) :=
    makeUpwards_unnamed (by rwa [List.reverse_reverse])
  have hcreate : (createOutput dir : ReaderT Encoding m _) encoding = pure (.error (.unusable .notPath)) :=
    (bind_encoded hmade fun _ => rfl).trans (pure_bind _ _)
  have hprepare : (prepare dir overwrite : ReaderT Encoding m _) encoding = pure (.error (.unusable .notPath)) :=
    (bind_encoded (atPath_unnamed h _) fun _ => rfl).trans ((pure_bind _ _).trans hcreate)
  exact (bind_encoded hprepare fun _ => rfl).trans (pure_bind _ _)

theorem writeText_unwritten {text : String} (hpath : encoding.encodesPath path = true)
    (htext : encoding.encodesText text = false) :
    (FileSystem.writeText path text : ReaderT Encoding m _) encoding =
      endedBy .notText <$> FileSystem.writeText path "" := by
  refine (if_neg (Bool.eq_false_iff.1 htext)).trans ?_
  rw [atPath_encoded hpath, map_eq_pure_bind]
  rfl

theorem writeFile_unwritten {contents : String} (hpath : encoding.encodesPath path = true)
    (htext : encoding.encodesText contents = false) :
    (writeFile path contents : ReaderT Encoding m _) encoding =
      endedBy (.unusable .notText) <$> writeFile path "" := by
  unfold writeFile
  rw [map_bind]
  refine bind_encoded (makeDirectories_encoded (encodesPath_parent hpath) true) fun made => ?_
  split
  · rw [map_pure]
    rfl
  · refine bind_endedBy (writeText_unwritten hpath htext) fun written => ?_
    rw [map_pure]
    cases written <;> rfl

/-- **The files before a text that cannot be encoded** are written; its own file is left empty. -/
theorem writeFiles_unwritten (hdir : encoding.encodesPath dir = true) {before : List Emit.File} {file : Emit.File}
    (hbefore : ∀ f ∈ before, encoding.encodesFile f = true) (hpath : encoding.encodesPath (.ofText file.path) = true)
    (htext : encoding.encodesText file.contents = false) (after : List Emit.File) :
    (writeFiles dir (before ++ file :: after) : ReaderT Encoding m _) encoding =
      endedBy (.unusable .notText) <$> writeFiles dir (before ++ [⟨file.path, ""⟩]) := by
  induction before with
  | nil =>
    rw [List.nil_append, List.nil_append, writeFiles, writeFiles]
    refine bind_endedBy (writeFile_unwritten (encodesPath_join hdir hpath) htext) fun written => ?_
    cases written with
    | error e =>
      dsimp only
      rw [map_pure]
      rfl
    | ok _ =>
      rw [writeFiles, pure_bind, map_pure]
      rfl
  | cons f rest ih =>
    obtain ⟨hfirst, hcontents⟩ := Bool.and_eq_true_iff.1 (hbefore f List.mem_cons_self)
    rw [List.cons_append, List.cons_append, writeFiles, writeFiles, map_bind]
    refine bind_encoded (writeFile_encoded (encodesPath_join hdir hfirst) hcontents) fun written => ?_
    split
    · rw [map_pure]
      rfl
    · refine bind_endedBy (ih fun g hg => hbefore g (List.mem_cons_of_mem _ hg)) fun written => ?_
      rw [map_pure]
      cases written <;> rfl

/-- **The first text that cannot be encoded** ends the writing of a library: the output directory is made anew, the files
before the text are written, and its own file is left empty. -/
theorem writeLibrary_unwritten (hdir : encoding.encodesPath dir = true) {before : List Emit.File} {file : Emit.File}
    (hbefore : ∀ f ∈ before, encoding.encodesFile f = true) (hpath : encoding.encodesPath (.ofText file.path) = true)
    (htext : encoding.encodesText file.contents = false) (after : List Emit.File) (overwrite : Bool) :
    (writeLibrary dir (before ++ file :: after) overwrite : ReaderT Encoding m _) encoding =
      endedBy (.unusable .notText) <$> writeLibrary dir (before ++ [⟨file.path, ""⟩]) overwrite := by
  unfold writeLibrary
  rw [map_bind]
  refine bind_encoded (prepare_encoded hdir overwrite) fun prepared => ?_
  split
  · rw [map_pure]
    rfl
  · exact writeFiles_unwritten hdir hbefore hpath htext after

end Files
end TypedClient
