import TypedClient.Proofs.Files.Writing
import TypedClient.Proofs.Making.Partition
import TypedClient.Proofs.Trimming
/-!
# Modules — the paths of the generated files

A run makes files of three kinds: those that the settings name themselves, one for every API class, and no others
(`generate_paths`).  The file of a class stands in the directory of API modules under the name of the class
(`parts_apiModule`), so that no two classes have the same file.  The settings name the others freely: they are apart if they
are named apart (`nodup_paths_iff`), and below the output directory if they are named so (`files_inside`).
-/
namespace TypedClient

namespace Files

/-! ## Paths out of texts -/

namespace Path

/-- The parts that slashes leave of a text. -/
def partsOf (cs : List Char) : List String :=
  ((Text.splitBy (· == '/') cs).map String.ofList).filter fun part => part != "" && part != "."

theorem parts_ofText (text : String) : (ofText text).parts = partsOf text.toList := rfl

theorem partsOf_append (before behind : List Char) : partsOf (before ++ '/' :: behind) = partsOf before ++ partsOf behind := by
  rw [partsOf, Text.splitBy_append _ '/' (by decide), List.map_append, List.filter_append]
  rfl

theorem partsOf_slash (cs : List Char) : partsOf ('/' :: cs) = partsOf cs :=
  partsOf_append [] cs

theorem partsOf_concat_slash (cs : List Char) : partsOf (cs ++ ['/']) = partsOf cs := by
  rw [partsOf_append]
  exact List.append_nil _

theorem partsOf_name {name : String} (hslash : '/' ∉ name.toList) (hne : name ≠ "") (hdot : name ≠ ".") :
    partsOf name.toList = [name] := by
  have hsplit : Text.splitBy (· == '/') name.toList = [name.toList] :=
    Text.splitBy_of_none _ _ fun c hc => by
      rw [beq_eq_false_iff_ne]
      rintro rfl
      exact hslash hc
  rw [partsOf, hsplit, List.map_singleton, String.ofList_toList, List.filter_cons_of_pos, List.filter_nil]
  rw [bne_iff_ne.2 hne, bne_iff_ne.2 hdot]
  rfl

theorem partsOf_dropWhile : ∀ cs : List Char, partsOf (cs.dropWhile (· == '/')) = partsOf cs
  | [] => rfl
  | c :: rest => by
    by_cases hc : c = '/'
    · subst hc
      rw [List.dropWhile_cons_of_pos (by decide), partsOf_slash]
      exact partsOf_dropWhile rest
    · rw [List.dropWhile_cons_of_neg (by simpa using hc)]

theorem partsOf_dropTail (cs : List Char) : partsOf (Text.dropTail (· == '/') cs) = partsOf cs := by
  unfold Text.dropTail
  induction cs using List.reverseRecOn with
  | nil => rfl
  | append_singleton cs c ih =>
    rw [List.reverse_append, List.reverse_singleton, List.singleton_append]
    by_cases hc : c = '/'
    · subst hc
      rw [List.dropWhile_cons_of_pos (by decide), ih, partsOf_concat_slash]
    · rw [List.dropWhile_cons_of_neg (by simpa using hc), List.reverse_cons, List.reverse_reverse]

theorem partsOf_dropEnds (cs : List Char) : partsOf (Text.dropEnds (· == '/') cs) = partsOf cs := by
  rw [Text.dropEnds, partsOf_dropTail, partsOf_dropWhile]

/-- A path is relative unless its text starts with a slash. -/
theorem isAbsolute_ofText {text : String} (h : text.toList.head? ≠ some '/') : (ofText text).isAbsolute = false := by
  have hleading : text.toList.takeWhile (· == '/') = [] := by
    cases hl : text.toList with
    | nil => rfl
    | cons c rest =>
      rw [hl] at h
      exact List.takeWhile_cons_of_neg (by simpa using h)
  unfold isAbsolute ofText
  dsimp only
  rw [hleading]
  rfl

end Path

theorem staysBelow_concat {name : String} (hname : name ≠ "..") : ∀ {names : List String} {depth : Nat},
    FileTree.staysBelow depth names = true → FileTree.staysBelow depth (names ++ [name]) = true
  | [], depth, _ => by
    rw [List.nil_append, FileTree.staysBelow_down depth hname]
    rfl
  | m :: rest, depth, h => by
    by_cases hm : m = ".."
    · subst hm
      cases depth with
      | zero => cases h
      | succ depth =>
        rw [List.cons_append, FileTree.staysBelow, if_pos rfl]
        rw [FileTree.staysBelow, if_pos rfl] at h
        exact staysBelow_concat hname h
    · rw [List.cons_append, FileTree.staysBelow_down depth hm]
      rw [FileTree.staysBelow_down depth hm] at h
      exact staysBelow_concat hname h

end Files

/-! ## Modules of classes -/

namespace Settings

open Files (Path)

variable {settings : Settings} {name name' : String}

theorem suffix_parts (hname : '/' ∉ name.toList) : Path.partsOf (name ++ ".ts").toList = [name ++ ".ts"] := by
  have hlength : 3 ≤ (name ++ ".ts").toList.length := by
    rw [String.toList_append, List.length_append]
    exact Nat.le_add_left 3 _
  refine Path.partsOf_name ?_ ?_ ?_
  · rw [String.toList_append, List.mem_append, not_or]
    exact ⟨hname, by decide⟩
  · intro heq
    rw [heq] at hlength
    exact absurd hlength (by decide)
  · intro heq
    rw [heq] at hlength
    exact absurd hlength (by decide)

/-- **Where the module of a class stands**: in the directory of API modules, under the name of the class. -/
theorem parts_apiModule (settings : Settings) (hname : '/' ∉ name.toList) :
    (Path.ofText (settings.apiModule name)).parts = (Path.ofText settings.apisDir).parts ++ [name ++ ".ts"] := by
  rw [Path.parts_ofText, Path.parts_ofText]
  unfold apiModule
  split
  · rename_i hempty
    rw [String.isEmpty_iff.1 hempty, suffix_parts hname]
    rfl
  · have hsplit : (String.ofList (Text.dropEnds (· == '/') settings.apisDir.toList) ++ "/" ++ name ++ ".ts").toList =
        Text.dropEnds (· == '/') settings.apisDir.toList ++ '/' :: (name ++ ".ts").toList := by
      simp
    rw [hsplit, Path.partsOf_append, Path.partsOf_dropEnds, suffix_parts hname]

/-- **No two classes have the same file.** -/
theorem apiModule_injective (hname : '/' ∉ name.toList) (hname' : '/' ∉ name'.toList)
    (h : Path.ofText (settings.apiModule name) = Path.ofText (settings.apiModule name')) : name = name' := by
  have hparts := congrArg Path.parts h
  rw [parts_apiModule settings hname, parts_apiModule settings hname'] at hparts
  have hlast := (List.append_inj' hparts rfl).2
  have htext := congrArg String.toList (List.singleton_inj.1 hlast)
  rw [String.toList_append, String.toList_append] at htext
  exact String.toList_inj.1 (List.append_cancel_right htext)

/-- Whether the directory of API modules is below its start: it has a name, or is left out. -/
def apisInside (settings : Settings) : Bool :=
  (settings.apisDir.isEmpty || settings.apisDir.toList.any (· != '/')) &&
    Files.FileTree.staysBelow 0 (Path.ofText settings.apisDir).parts

theorem apiModule_inside (h : settings.apisInside = true) (hname : '/' ∉ name.toList) :
    (Path.ofText (settings.apiModule name)).inside = true := by
  obtain ⟨hnamed, hbelow⟩ := Bool.and_eq_true_iff.1 h
  refine Path.inside_iff.2 ⟨Path.isAbsolute_ofText ?_, ?_⟩
  · intro hhead
    unfold apiModule at hhead
    split at hhead
    · have hmem := List.mem_of_mem_head? hhead
      rw [String.toList_append, List.mem_append] at hmem
      exact hmem.elim hname (by decide)
    · have hne : Text.dropEnds (· == '/') settings.apisDir.toList ≠ [] := by
        rename_i hempty
        rw [Bool.or_eq_true, List.any_eq_true] at hnamed
        obtain ⟨c, hmem, hc⟩ := hnamed.resolve_left hempty
        exact Text.dropEnds_ne_nil hmem (beq_eq_false_iff_ne.2 (bne_iff_ne.1 hc))
      have hfirst : (Text.dropEnds (· == '/') settings.apisDir.toList).head? = some '/' := by
        obtain ⟨c, rest, hcons⟩ := List.exists_cons_of_ne_nil hne
        rw [hcons] at hhead ⊢
        simpa using hhead
      exact absurd (Text.head?_dropEnds hfirst) (by decide)
  · rw [parts_apiModule settings hname]
    refine Files.staysBelow_concat ?_ hbelow
    intro heq
    have := congrArg (·.toList.length) heq
    simp at this

/-- The modules that the settings name themselves. -/
def ownModules (settings : Settings) : List String :=
  (if settings.emitRuntimeClient then [settings.clientModule] else []) ++ [settings.definitionsModule, settings.indexModule]

end Settings

namespace Making

open Codegen (Session)
open Emit (File)
open Generate (Progress)
open Files (FileTree Path Place writeLibrary writeLibrary_below writeLibrary_readText)
open Linking (World Progress.start Progress.definitions)

variable {settings : Settings} {document : Node}

/-! ## The files of a run -/

/-- **The output of a run so far**: the client, a file for each printed module, and at most the index. -/
def Output (settings : Settings) (p : Progress) : Prop :=
  ∃ fs more, p.files = clientFiles settings ++ fs ++ more ∧
    List.Forall₂ (fun (m : Session) file => m.file = .ok file) p.modules fs ∧ ∀ file ∈ more, file.path = settings.indexModule

theorem output_of_added {p p' : Progress} {ms : List Session} {fs : List File} (hfiles : p.files = clientFiles settings)
    (hmodules : p.modules = []) (h : Added p p' ms fs) : Output settings p' :=
  ⟨fs, [], by rw [h.files, hfiles, List.append_nil], by rw [h.modules, hmodules]; exact h.printed, nofun⟩

theorem output_client {p : Progress} (hfiles : p.files = clientFiles settings) (hmodules : p.modules = []) :
    Output settings p :=
  output_of_added hfiles hmodules (.none rfl rfl)

theorem generateModules_output (document : Node) (settings : Settings) (draft : Codegen.Draft)
    (schemas : List (String × Node)) {p : Progress} (hfiles : p.files = clientFiles settings) (hmodules : p.modules = []) :
    Comes (fun _ => Output settings) (fun _ => Output settings)
      (Generate.generateModules document settings draft schemas p) := by
  rw [generateModules_eq]
  -- wherever the run stops, the files so far are those of the printed modules; the index is made last
  cases Generate.generateTypedefs schemas ⟨p.shared, draft⟩ with
  | error e s => exact output_client hfiles hmodules
  | ok _ s =>
    dsimp only
    have hdefinitions := printedTo_comes s { p with shared := s.shared }
    cases hr : printedTo s { p with shared := s.shared } with
    | error e p₁ =>
      rw [hr] at hdefinitions
      rw [hdefinitions.1]
      exact output_client hfiles hmodules
    | ok _ p₁ =>
      rw [hr] at hdefinitions
      obtain ⟨-, -, file, hprinted⟩ := hdefinitions
      have hadded : Added p p₁ [s] [file] := ⟨hprinted.modules, hprinted.files, hprinted.printed⟩
      dsimp only
      have hclasses : ClassesMade settings (fun _ _ => True) (fun _ _ => True) (fun _ => True) := by
        intro className specs rest shared _
        cases classWork className specs (begun settings className shared) with
        | ok _ s => exact ⟨trivial, trivial, fun _ _ => trivial⟩
        | error e s => trivial
      have hapis := generateApis_comes hclasses (Operation.group document settings.defaultApiName) p₁ trivial
      cases hr' : Generate.generateApis settings (Operation.group document settings.defaultApiName) p₁ with
      | error e p₂ =>
        rw [hr'] at hapis
        obtain ⟨-, ms, fs, hadded', -⟩ := hapis
        exact output_of_added hfiles hmodules (hadded.trans hadded')
      | ok _ p₂ =>
        rw [hr'] at hapis
        obtain ⟨-, -, ms, fs, hadded', -⟩ := hapis
        dsimp only
        cases hindex : Emit.indexFile p₂.shared.scopes 0 settings.indexModule with
        | error x => exact output_of_added hfiles hmodules (hadded.trans hadded')
        | ok index =>
          have htotal := hadded.trans hadded'
          refine ⟨file :: fs, [index], ?_, ?_, List.forall_mem_singleton.2 (indexFile_path hindex)⟩
          · dsimp only
            rw [htotal.files, hfiles]
            rfl
          · dsimp only
            rw [htotal.modules, hmodules]
            exact htotal.printed

theorem generateAll_output (document : Node) (settings : Settings) :
    Comes (fun _ => Output settings) (fun _ => Output settings)
      (Generate.generateAll document settings Progress.start) := by
  cases hm : document.isMap with
  | false =>
    unfold Generate.generateAll
    rw [hm]
    cases hemit : settings.emitRuntimeClient with
    | true => exact output_client (by rw [clientFiles, hemit]; rfl) rfl
    | false => exact output_client (by rw [clientFiles, hemit]; rfl) rfl
  | true =>
    rw [Linking.generateAll_mapping hm]
    exact generateModules_output document settings _ _ rfl rfl

theorem generate_output (document : Node) (settings : Settings) :
    ∃ fs more, (generate document settings).files = clientFiles settings ++ fs ++ more ∧
      List.Forall₂ (fun (m : Session) file => m.file = .ok file) (generate document settings).modules fs ∧
      ∀ file ∈ more, file.path = settings.indexModule := by
  have houtput := generateAll_output document settings
  cases hrun : Generate.generateAll document settings Progress.start with
  | ok _ p =>
    rw [hrun] at houtput
    rw [Linking.generate_of_ok hrun]
    exact houtput
  | error e p =>
    rw [hrun] at houtput
    rw [Linking.generate_of_error hrun]
    exact houtput

theorem slashless_group {values : List (String × Node)} (hs : Settings.ofValues values = .ok settings) (document : Node) :
    ∀ entry ∈ Operation.group document settings.defaultApiName, '/' ∉ entry.1.toList := by
  refine Operation.group_names (p := ('/' ∉ String.toList ·)) ?_ fun raw hslash =>
    absurd (Naming.plain_sanitize raw '/' hslash) (by decide)
  have hword : ∀ value name, Settings.readName value = .ok name → '/' ∉ name.toList := by
    intro value name h
    unfold Settings.readName at h
    split at h
    · split at h
      · rename_i hword
        cases h
        exact Text.not_mem_of_isWord (by decide +kernel) hword
      · cases h
    · cases h
  exact Settings.withDefault_of (q := ('/' ∉ String.toList ·)) (by decide) hword (Settings.ofValues_eq_ok hs).1

/-- What is known of the modules of any run, and of a run that comes to its end. -/
theorem generate_modules {values : List (String × Node)} (hs : Settings.ofValues values = .ok settings) (document : Node) :
    (∀ i m, (generate document settings).modules[i]? = some m → MadeOne document settings (DefinitionsModule settings)
      (ClassModule settings) (generate document settings).files i m) ∧
    ((generate document settings).failure = none → Whole document settings (DefinitionsModule settings) (ClassModule settings)
      (generate document settings).modules (generate document settings).files (generate document settings).apiNames) :=
  generate_free settings document (fun _ => True) (DefinitionsModule settings) (ClassModule settings)
    ((definitionsModule_comes settings _).mono fun _ _ h => ⟨h.1, h.2, trivial⟩)
    fun _ specs _ hmem hready _ =>
      (classModule_comes hready (Operation.dotless_group (Settings.dotless_defaultApiName hs) _ hmem) specs).mono
        fun _ _ h => ⟨h.1, h.2, trivial⟩

/-- **Every file of a run is named by the settings, or is the file of a class.** -/
theorem generate_paths {values : List (String × Node)} (hs : Settings.ofValues values = .ok settings) (document : Node) :
    ∀ file ∈ (generate document settings).files, file.path ∈ settings.ownModules ∨
      ∃ entry ∈ Operation.group document settings.defaultApiName, file.path = settings.apiModule entry.1 := by
  obtain ⟨fs, more, hfiles, hprinted, hmore⟩ := generate_output document settings
  obtain ⟨hmodules, -⟩ := generate_modules hs document
  intro file hfile
  rw [hfiles, List.mem_append, List.mem_append] at hfile
  rcases hfile with (hclient | hmodule) | hindex
  · refine .inl ?_
    unfold clientFiles at hclient
    unfold Settings.ownModules
    split at hclient
    · rw [List.mem_singleton.1 hclient, if_pos (by assumption)]
      exact List.mem_cons_self
    · cases hclient
  · obtain ⟨m, hm, hfile⟩ := (exists_of_forall₂ hprinted).2 file hmodule
    obtain ⟨i, hi⟩ := List.mem_iff_getElem?.1 hm
    rw [(file_eq_ok hfile).1]
    obtain ⟨-, hdefinitions⟩ | ⟨-, entry, hentry, hclass⟩ := (hmodules i m hi).1
    · refine .inl ?_
      rw [hdefinitions.2.1]
      simp [Settings.ownModules]
    · exact .inr ⟨entry, hentry, hclass.2.1⟩
  · refine .inl ?_
    rw [hmore file hindex]
    simp [Settings.ownModules]

/-! ## Distinct paths -/

/-- **The paths of a run that comes to its end**: those that the settings name, and those of the classes. -/
theorem paths_perm {values : List (String × Node)} (hs : Settings.ofValues values = .ok settings)
    (hok : (generate document settings).failure = none) :
    ((generate document settings).files.map (·.path)).Perm
      (settings.ownModules ++ (generate document settings).apiNames.map settings.apiModule) := by
  obtain ⟨hnames, definitions, apis, file, fs, index, -, hdefinitions, hclasses, hfile, hprinted, hfiles, hindex⟩ :=
    (generate_modules hs document).2 hok
  have hapis : fs.map (·.path) = (generate document settings).apiNames.map settings.apiModule := by
    have hpaths : fs.map (·.path) = apis.map (·.draft.filename) :=
      forall₂_map_eq (hprinted.imp fun m f h => (file_eq_ok h).1)
    rw [hpaths, hnames, List.map_map]
    exact forall₂_map_eq (hclasses.imp fun entry m h => h.2.1)
  have hclient : (clientFiles settings).map (·.path) = if settings.emitRuntimeClient then [settings.clientModule] else [] := by
    unfold clientFiles
    split <;> rfl
  have hpath : file.path = settings.definitionsModule := (file_eq_ok hfile).1.trans hdefinitions.2.1
  rw [hfiles, List.map_append, List.map_append, List.map_cons, hclient, hapis, hpath, List.map_singleton, hindex,
    Settings.ownModules, List.append_assoc, List.append_assoc, List.cons_append, List.cons_append, List.singleton_append]
  exact .append_left _ (.cons _ (List.perm_append_singleton _ _))

theorem apiNames_slashless {values : List (String × Node)} (hs : Settings.ofValues values = .ok settings)
    (hok : (generate document settings).failure = none) : (generate document settings).apiNames.Nodup ∧
      ∀ name ∈ (generate document settings).apiNames, '/' ∉ name.toList := by
  rw [((generate_modules hs document).2 hok).apiNames]
  refine ⟨?_, fun name hname => ?_⟩
  · rw [Operation.group_eq, List.map_map]
    exact (List.map_id' _ : List.map (fun name => name) _ = _) ▸ nodup_dropRepeats _
  · obtain ⟨entry, hentry, rfl⟩ := List.mem_map.1 hname
    exact slashless_group hs document entry hentry

/-- What tells the files of any two classes apart, tells all files of a run apart if it does so with those that the settings
name. -/
theorem nodup_paths_iff {values : List (String × Node)} (hs : Settings.ofValues values = .ok settings)
    (hok : (generate document settings).failure = none) {α : Type} (f : String → α)
    (hf : ∀ name ∈ (generate document settings).apiNames, ∀ name' ∈ (generate document settings).apiNames,
      f (settings.apiModule name) = f (settings.apiModule name') → name = name') :
    ((generate document settings).files.map fun file => f file.path).Nodup ↔ (settings.ownModules.map f).Nodup ∧
      ∀ file ∈ settings.ownModules, ∀ name ∈ (generate document settings).apiNames, f file ≠ f (settings.apiModule name) := by
  have hperm := (paths_perm hs hok).map f
  rw [List.map_map, List.map_append, List.map_map] at hperm
  have hclasses : ((generate document settings).apiNames.map (f ∘ settings.apiModule)).Nodup :=
    (List.nodup_map_iff_inj_on (apiNames_slashless hs hok).1).2 hf
  refine hperm.nodup_iff.trans ?_
  rw [List.nodup_append]
  constructor
  · rintro ⟨hown, -, hapart⟩
    exact ⟨hown, fun file hfile name hname => hapart _ (List.mem_map_of_mem hfile) _ (List.mem_map_of_mem hname)⟩
  · rintro ⟨hown, hapart⟩
    refine ⟨hown, hclasses, fun a ha b hb => ?_⟩
    obtain ⟨file, hfile, rfl⟩ := List.mem_map.1 ha
    obtain ⟨name, hname, rfl⟩ := List.mem_map.1 hb
    exact hapart file hfile name hname

/-- **Modules overwrite one another only if the settings name them so.**  When a run has come to its end, the files of the
classes are different.  All files are different, as they are spelled or in normal form, if and only if those that the
settings name are different from one another and from those of the classes; and if their normal forms are different and lead
straight down, each of them can be read when all have been written. -/
theorem modules_apart {values : List (String × Node)} (hs : Settings.ofValues values = .ok settings)
    (document : Node) (hok : (generate document settings).failure = none) :
    let files := (generate document settings).files
    let apiNames := (generate document settings).apiNames
    (apiNames.map fun name => Path.ofText (settings.apiModule name)).Nodup ∧
    ((files.map (·.path)).Nodup ↔ settings.ownModules.Nodup ∧
      ∀ file ∈ settings.ownModules, ∀ name ∈ apiNames, file ≠ settings.apiModule name) ∧
    ((files.map fun file => Path.ofText file.path).Nodup ↔ (settings.ownModules.map Path.ofText).Nodup ∧
      ∀ file ∈ settings.ownModules, ∀ name ∈ apiNames, Path.ofText file ≠ Path.ofText (settings.apiModule name)) ∧
    ((∀ file ∈ files, (Path.ofText file.path).plain = true) → (files.map fun file => Path.ofText file.path).Nodup →
      ∀ (dir : Path) (overwrite : Bool) (t t' : FileTree) (written : List Path), t.WellFormed →
        (writeLibrary dir files overwrite : StateM FileTree _) t = (.ok written, t') →
        ∀ file ∈ files, t'.readText (dir.join (.ofText file.path)) = .ok file.contents) := by
  intro files apiNames
  obtain ⟨hnodup, hslashless⟩ := apiNames_slashless hs hok
  have hinj : ∀ name ∈ apiNames, ∀ name' ∈ apiNames,
      Path.ofText (settings.apiModule name) = Path.ofText (settings.apiModule name') → name = name' :=
    fun name hname name' hname' => Settings.apiModule_injective (hslashless name hname) (hslashless name' hname')
  refine ⟨(List.nodup_map_iff_inj_on hnodup).2 hinj, ?_, nodup_paths_iff hs hok Path.ofText hinj, ?_⟩
  · have h := nodup_paths_iff hs hok id fun name hname name' hname' heq => hinj name hname name' hname' (congrArg _ heq)
    rw [List.map_id] at h
    exact h
  · intro hplain hdistinct dir overwrite t t' written hwellFormed hwritten
    refine writeLibrary_readText hwellFormed hplain ?_ hwritten
    have hpath : ∀ file ∈ files, Path.ofText file.path = ⟨0, (Path.ofText file.path).parts⟩ := fun file hfile => by
      have hrelative := (Path.plain_iff.1 (hplain file hfile)).1
      rw [Path.isAbsolute, bne_eq_false_iff_eq] at hrelative
      rw [← hrelative]
    rw [List.map_congr_left hpath, ← Function.comp_def (Files.Path.mk 0), ← List.map_map] at hdistinct
    exact hdistinct.of_map

theorem petShop_apart : ((generate petShop Linking.petSettings).files.map (·.path)).Nodup ∧
    ∀ (dir : Path) (overwrite : Bool) (t t' : FileTree) (written : List Path), t.WellFormed →
      (writeLibrary dir (generate petShop Linking.petSettings).files overwrite : StateM FileTree _) t = (.ok written, t') →
      ∀ file ∈ (generate petShop Linking.petSettings).files, t'.readText (dir.join (.ofText file.path)) = .ok file.contents := by
  obtain ⟨-, hspelled, -, hread⟩ := modules_apart Linking.ofValues_petValues petShop (by decide +kernel)
  exact ⟨hspelled.2 (by decide +kernel), hread (by decide +kernel) (by decide +kernel)⟩

/-- Settings that put the modules of the classes beside the index, with a class of that name. -/
def indexClassValues : List (String × Node) :=
  Linking.petValues ++ [("apis_dir", .str ""), ("default_api_name", .str "index"), ("emit_runtime_client", .bool false)]

def indexClass : Settings :=
  { Linking.petSettings with apisDir := "", defaultApiName := "index", emitRuntimeClient := false }

/-- **A class can have the file of the index.** -/
theorem indexClass_overwritten : Settings.ofValues indexClassValues = .ok indexClass ∧
    (generate petShop indexClass).failure = none ∧
    (generate petShop indexClass).files.map (·.path) = ["definitions.ts", "index.ts", "KeeperApi.ts", "index.ts"] ∧
    ¬ ((generate petShop indexClass).files.map (·.path)).Nodup := by
  have hpaths : (generate petShop indexClass).files.map (·.path) =
      ["definitions.ts", "index.ts", "KeeperApi.ts", "index.ts"] := by decide +kernel
  refine ⟨by decide +kernel, by decide +kernel, hpaths, ?_⟩
  rw [hpaths]
  decide

/-- **Output stays below the output directory**, if the modules that the settings name and the directory of API modules are
named below it.  Every file that a run makes, also one that fails, has a relative path that never leads above its start; and
writing the files, whether it succeeds or not, changes nothing but what is below the place that the output path led to or
leads to now, and makes directories where nothing stood. -/
theorem files_inside {values : List (String × Node)} (hs : Settings.ofValues values = .ok settings)
    (hown : ∀ file ∈ settings.ownModules, (Path.ofText file).inside = true) (hapis : settings.apisInside = true)
    (document : Node) : (∀ file ∈ (generate document settings).files, (Path.ofText file.path).inside = true) ∧
      ∀ (t : FileTree) (overwrite : Bool) (p : Place), t.WellFormed →
        let t' := ((writeLibrary settings.outputDir (generate document settings).files overwrite : StateM FileTree _) t).2
        t'.entry? p = t.entry? p ∨ (t.entry? p = none ∧ t'.entry? p = some .directory) ∨
          ∃ P, (t.walk true settings.outputDir = .ok P ∨ t'.walk true settings.outputDir = .ok P) ∧ P <+: p := by
  have hinside : ∀ file ∈ (generate document settings).files, (Path.ofText file.path).inside = true := by
    intro file hfile
    obtain hnamed | ⟨entry, hentry, hclass⟩ := generate_paths hs document file hfile
    · exact hown _ hnamed
    · rw [hclass]
      exact Settings.apiModule_inside hapis (slashless_group hs document entry hentry)
  exact ⟨hinside, fun t overwrite p hwellFormed => writeLibrary_below hwellFormed _ overwrite hinside p⟩

/-- A working directory with nothing in it. -/
def emptyDesk : FileTree := ⟨["desk"], [(["desk"], .directory)]⟩

theorem petShop_inside : (∀ file ∈ (generate petShop Linking.petSettings).files, (Path.ofText file.path).inside = true) ∧
    ∀ p, let t' := ((writeLibrary (.ofText "out") (generate petShop Linking.petSettings).files false : StateM FileTree _)
        emptyDesk).2
      t'.entry? p = emptyDesk.entry? p ∨ (emptyDesk.entry? p = none ∧ t'.entry? p = some .directory) ∨
        ∃ P, (emptyDesk.walk true (.ofText "out") = .ok P ∨ t'.walk true (.ofText "out") = .ok P) ∧ P <+: p := by
  obtain ⟨hinside, hbelow⟩ := files_inside Linking.ofValues_petValues (by decide) (by decide) petShop
  exact ⟨hinside, fun p => hbelow emptyDesk false p (FileTree.wellFormed_of_entries (by decide))⟩

/-- Settings of a client module beside the output directory. -/
def besideValues : List (String × Node) := Linking.petValues ++ [("client_module", .str "../client.ts")]

def beside : Settings := { Linking.petSettings with clientModule := "../client.ts" }

/-- **A module can be named outside of the output directory**, and is written there. -/
theorem client_outside : Settings.ofValues besideValues = .ok beside ∧
    (∃ file ∈ (generate petShop beside).files, file.path = "../client.ts" ∧ (Path.ofText file.path).inside = false) ∧
    emptyDesk.entry? ["desk", "client.ts"] = none ∧
    FileTree.entry? ((writeLibrary (.ofText "out") (generate petShop beside).files false : StateM FileTree _) emptyDesk).2
      ["desk", "client.ts"] ≠ none :=
  ⟨by decide +kernel, by decide +kernel, by decide, by decide +kernel⟩

end Making
end TypedClient
