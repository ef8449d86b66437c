import Mathlib.Data.List.Induction
import TypedClient.Proofs.Making.Runs
/-!
# Partition — every operation in one module

The operations of a document are divided among the classes: a class has those that `Operation.classOf` puts there, in
document order, and the classes come in the order of their first operations (`Grouped.ofList_eq`).  The module of a class
has one method for each of its operations, in their order, and no other module has any (`operations_partitioned`).
-/
namespace TypedClient

/-! ## Groupings -/

section Repeats

variable {α : Type} [BEq α]

theorem dropRepeats_concat (items : List α) (x : α) :
    dropRepeats (items ++ [x]) = if (dropRepeats items).contains x then dropRepeats items else dropRepeats items ++ [x] := by
  unfold dropRepeats
  rw [List.foldl_append]
  rfl

variable [LawfulBEq α]

theorem mem_dropRepeats {items : List α} {x : α} : x ∈ dropRepeats items ↔ x ∈ items := by
  induction items using List.reverseRecOn with
  | nil => rfl
  | append_singleton items y ih =>
    rw [dropRepeats_concat, List.mem_append, List.mem_singleton, ← ih]
    split
    · rename_i hy
      refine ⟨.inl, ?_⟩
      rintro (hx | rfl)
      · exact hx
      · exact List.contains_iff_mem.1 hy
    · rw [List.mem_append, List.mem_singleton]

theorem nodup_dropRepeats (items : List α) : (dropRepeats items).Nodup := by
  induction items using List.reverseRecOn with
  | nil => exact List.nodup_nil
  | append_singleton items y ih =>
    rw [dropRepeats_concat]
    split
    · exact ih
    · rename_i hy
      rw [List.nodup_append_comm]
      exact List.nodup_cons.2 ⟨fun hm => hy (List.contains_iff_mem.2 hm), ih⟩

end Repeats

namespace Grouped

variable {α : Type}

/-- The values under a key, in order. -/
def valuesOf (pairs : List (String × α)) (key : String) : List α :=
  (pairs.filter (·.1 == key)).map (·.2)

theorem valuesOf_concat (pairs : List (String × α)) (key k : String) (value : α) :
    valuesOf (pairs ++ [(k, value)]) key = if k = key then valuesOf pairs key ++ [value] else valuesOf pairs key := by
  unfold valuesOf
  rw [List.filter_append, List.map_append]
  split
  · rename_i h
    rw [List.filter_cons_of_pos (by exact beq_iff_eq.2 h)]
    rfl
  · rename_i h
    rw [List.filter_cons_of_neg (by exact fun heq => h (beq_iff_eq.1 heq)), List.filter_nil, List.map_nil, List.append_nil]

/-- A value is added under its key; a new key goes to the end. -/
theorem add_map (f : String → List α) (key : String) (value : α) : ∀ {keys : List String}, keys.Nodup →
    Grouped.add (keys.map fun k => (k, f k)) key value =
      (keys.map fun k => (k, if key = k then f k ++ [value] else f k)) ++ if key ∈ keys then [] else [(key, [value])]
  | [], _ => rfl
  | k :: rest, hnodup => by
    obtain ⟨hk, hrest⟩ := List.nodup_cons.1 hnodup
    rw [List.map_cons, Grouped.add]
    by_cases hkey : k = key
    · subst hkey
      rw [if_pos rfl, if_pos List.mem_cons_self, List.append_nil, List.map_cons, if_pos rfl]
      congr 1
      refine List.map_congr_left fun k' hk' => ?_
      rw [if_neg fun heq => hk (by rw [heq]; exact hk')]
    · rw [if_neg hkey, add_map f key value hrest, List.map_cons, if_neg (Ne.symm hkey)]
      simp only [List.mem_cons, Ne.symm hkey, false_or]
      rfl

/-- **A grouping**: under each key, in the order of first appearance, the values that have it. -/
theorem ofList_eq (pairs : List (String × α)) :
    ofList pairs = (dropRepeats (pairs.map (·.1))).map fun key => (key, valuesOf pairs key) := by
  induction pairs using List.reverseRecOn with
  | nil => rfl
  | append_singleton pairs pair ih =>
    obtain ⟨key, value⟩ := pair
    have hadd : ofList (pairs ++ [(key, value)]) = (ofList pairs).add key value := by
      unfold ofList
      rw [List.foldl_append]
      rfl
    rw [hadd, ih, add_map _ key value (nodup_dropRepeats _), List.map_append, List.map_singleton, dropRepeats_concat]
    simp only [valuesOf_concat, List.contains_iff_mem]
    by_cases hkey : key ∈ dropRepeats (pairs.map (·.1))
    · rw [if_pos hkey, if_pos hkey, List.append_nil]
    · rw [if_neg hkey, if_neg hkey, List.map_append, List.map_singleton, if_pos rfl]
      have hnone : valuesOf pairs key = [] := by
        unfold valuesOf
        rw [List.filter_eq_nil_iff.2, List.map_nil]
        intro pair hpair heq
        exact hkey (mem_dropRepeats.2 (List.mem_map.2 ⟨pair, hpair, beq_iff_eq.1 heq⟩))
      rw [hnone]
      rfl

theorem add_perm (key : String) (value : α) : ∀ groups : Grouped α,
    ((groups.add key value).flatMap (·.2)).Perm (groups.flatMap (·.2) ++ [value])
  | [] => .refl _
  | (k, values) :: rest => by
    rw [Grouped.add]
    split
    · rw [List.flatMap_cons, List.flatMap_cons, List.append_assoc, List.append_assoc]
      exact .append_left _ List.perm_append_comm
    · rw [List.flatMap_cons, List.flatMap_cons, List.append_assoc]
      exact .append_left _ (add_perm key value rest)

/-- **A grouping loses nothing and adds nothing.** -/
theorem ofList_perm (pairs : List (String × α)) : ((ofList pairs).flatMap (·.2)).Perm (pairs.map (·.2)) := by
  induction pairs using List.reverseRecOn with
  | nil => exact .refl _
  | append_singleton pairs pair ih =>
    obtain ⟨key, value⟩ := pair
    have hadd : ofList (pairs ++ [(key, value)]) = (ofList pairs).add key value := by
      unfold ofList
      rw [List.foldl_append]
      rfl
    rw [hadd, List.map_append]
    exact (add_perm key value _).trans (.append_right _ ih)

end Grouped

/-! ## Names of classes -/

theorem Naming.sanitize_ne_empty (raw : String) : sanitize raw ≠ "" := by
  intro hempty
  have hidentifier := (proper_sanitize raw).identifier
  rw [hempty] at hidentifier
  cases hidentifier

theorem Operation.apiName_ne_empty {operation : Node} {definitions : List Node} {default : String} (h : default ≠ "") :
    apiName operation definitions default ≠ "" :=
  apiName_of (p := (· ≠ "")) h Naming.sanitize_ne_empty

/-! ## Settings -/

namespace Settings

variable {values : List (String × Node)} {settings : Settings}

theorem mapError_eq_ok {α ε ε' : Type} {f : ε → ε'} {x : Except ε α} {a : α} (h : x.mapError f = .ok a) : x = .ok a := by
  cases x with
  | ok b =>
    cases h
    rfl
  | error e => cases h

/-- The names and files among the settings come out of the checks. -/
theorem ofValues_eq_ok (h : ofValues values = .ok settings) :
    withDefault values "default_api_name" "DefaultApi" readName = .ok settings.defaultApiName ∧
    withDefault values "client_module" "client.ts" readModule = .ok settings.clientModule ∧
    withDefault values "definitions_module" "definitions.ts" readModule = .ok settings.definitionsModule := by
  unfold ofValues at h
  dsimp only at h
  split at h
  · obtain ⟨_, -, h⟩ := except_bind_eq_ok h
    obtain ⟨_, -, h⟩ := except_bind_eq_ok h
    obtain ⟨name, hname, h⟩ := except_bind_eq_ok h
    obtain ⟨client, hclient, h⟩ := except_bind_eq_ok h
    obtain ⟨definitions, hdefinitions, h⟩ := except_bind_eq_ok h
    obtain ⟨_, -, h⟩ := except_bind_eq_ok h
    obtain ⟨_, -, h⟩ := except_bind_eq_ok h
    obtain ⟨_, -, h⟩ := except_bind_eq_ok h
    obtain ⟨_, -, h⟩ := except_bind_eq_ok h
    obtain ⟨_, -, h⟩ := except_bind_eq_ok h
    cases h
    exact ⟨mapError_eq_ok hname, mapError_eq_ok hclient, mapError_eq_ok hdefinitions⟩
  · cases h

/-- What a checked text has that its default has. -/
theorem withDefault_of {α : Type} {q : α → Prop} {name : String} {default a : α} {read : Node → Except Fault α}
    (hdefault : q default) (hread : ∀ value b, read value = .ok b → q b)
    (h : withDefault values name default read = .ok a) : q a := by
  unfold withDefault at h
  split at h
  · cases h
    exact hdefault
  · exact hread _ _ (mapError_eq_ok h)

theorem readName_ne_empty (value : Node) (name : String) (h : readName value = .ok name) : name ≠ "" := by
  unfold readName at h
  split at h
  · split at h
    · rename_i hword
      cases h
      rintro rfl
      cases hword
    · cases h
  · cases h

theorem readModule_ne_empty (value : Node) (file : String) (h : readModule value = .ok file) : file ≠ "" := by
  unfold readModule at h
  split at h
  · split at h
    · rename_i hend
      cases h
      rintro rfl
      cases hend
    · cases h
  · cases h

theorem defaultApiName_ne_empty (h : ofValues values = .ok settings) : settings.defaultApiName ≠ "" :=
  withDefault_of (q := (· ≠ "")) (by decide) readName_ne_empty (ofValues_eq_ok h).1

end Settings

namespace Operation

/-- Where an operation stands: its path and its request method. -/
def Spec.call (spec : Spec) : String × String := (spec.path, spec.verb)

/-- The class of an operation of a document. -/
def classOf (document : Node) (default : String) (spec : Spec) : String :=
  apiName spec.operation (((document.get? "tags").bind Node.items?).getD []) default

/-- **The operations by class**: each class, in the order of first operations, has those that belong to it. -/
theorem group_eq (document : Node) (default : String) :
    group document default = (dropRepeats ((collect document).map (classOf document default))).map fun name =>
      (name, (collect document).filter (classOf document default · == name)) := by
  unfold group
  dsimp only
  rw [Grouped.ofList_eq, List.map_map]
  refine List.map_congr_left fun name _ => ?_
  unfold Grouped.valuesOf
  rw [List.filter_map, List.map_map]
  exact congrArg (name, ·) (List.map_id' _)

theorem group_perm (document : Node) (default : String) :
    ((group document default).flatMap (·.2)).Perm (collect document) := by
  unfold group
  have h := Grouped.ofList_perm ((collect document).map fun spec => (classOf document default spec, spec))
  rw [List.map_map] at h
  exact h.trans (.of_eq (List.map_id' _))

end Operation

/-- The request that a method sends: the path and the request method of its operation. -/
def Emit.Method.call (m : Emit.Method) : String × String := (m.path, m.verb)

namespace Making

open Codegen (Session)
open Emit (File)
open Operation (Spec collect classOf)

variable {settings : Settings} {document : Node}

/-- **What a file shows of a module**: it is the text of its imports, typedefs and class. -/
theorem file_eq_ok {m : Session} {file : File} (h : m.file = .ok file) :
    file.path = m.draft.filename ∧ ∃ imports, Emit.moduleImports m.shared.scopes m.draft.scope m.draft.filename = .ok imports ∧
      (⟨imports, m.draft.typedefs, m.draft.apiName, m.draft.methods⟩ : Emit.Module).text = .ok file.contents := by
  unfold Session.file Session.module at h
  cases hi : Emit.moduleImports m.shared.scopes m.draft.scope m.draft.filename with
  | error x =>
    rw [hi] at h
    cases h
  | ok imports =>
    rw [hi] at h
    dsimp only [Except.map] at h
    cases ht : (⟨imports, m.draft.typedefs, m.draft.apiName, m.draft.methods⟩ : Emit.Module).text with
    | error x =>
      rw [ht] at h
      cases h
    | ok contents =>
      rw [ht] at h
      cases h
      exact ⟨rfl, imports, rfl, ht⟩

/-- Whether the text of a file ends with a class that consists of the methods of a module, in order. -/
def ShowsClass (name : String) (m : Session) (file : File) : Prop :=
  ∃ texts front, Emit.methodTexts m.draft.methods = .ok texts ∧
    file.contents = front ++ ("\nexport class " ++ name ++ " extends Client \x7b\n" ++ "\n".intercalate texts ++ "\x7d\n")

theorem showsClass_of_file {m : Session} {file : File} {name : String} (h : m.file = .ok file)
    (hname : m.draft.apiName = some name) (hne : name ≠ "") : ShowsClass name m file := by
  obtain ⟨-, imports, -, htext⟩ := file_eq_ok h
  unfold Emit.Module.text Emit.classText at htext
  have hempty : name.isEmpty = false := by
    rw [Bool.eq_false_iff]
    exact fun hemp => hne (String.isEmpty_iff.1 hemp)
  simp only [hname, hempty] at htext
  cases hm : Emit.methodTexts m.draft.methods with
  | error e =>
    simp only [hm] at htext
    cases htext
  | ok texts =>
    simp only [hm] at htext
    exact ⟨texts, _, hm, (Except.ok.inj htext).symm⟩

/-- **The operations of a document, divided among the modules of a run**: that of the component schemas, and those of the
classes; with their files, and that of the index. -/
structure Partitioned (document : Node) (settings : Settings) (r : Generation) (definitions : Session) (apis : List Session)
    (file : File) (fs : List File) (index : File) : Prop where
  modules : r.modules = definitions :: apis
  files : r.files = clientFiles settings ++ file :: fs ++ [index]
  /-- The classes come in the order of their first operations. -/
  apiNames : r.apiNames = dropRepeats ((collect document).map (classOf document settings.defaultApiName))
  nodup : r.apiNames.Nodup
  paths : file.path = settings.definitionsModule ∧ fs.map (·.path) = r.apiNames.map settings.apiModule ∧
    index.path = settings.indexModule
  definitions : definitions.file = .ok file ∧ definitions.draft.apiName = none ∧ definitions.draft.methods = []
  /-- The module of a class has a method for each operation of the class, in document order. -/
  methods : List.Forall₂ (fun name (m : Session) => m.draft.apiName = some name ∧ m.draft.methods.map Emit.Method.call =
    ((collect document).filter (classOf document settings.defaultApiName · == name)).map Spec.call) r.apiNames apis
  /-- They are what its file shows. -/
  shown : List.Forall₂ (fun (m : Session) file => m.file = .ok file ∧
    ∃ name, m.draft.apiName = some name ∧ ShowsClass name m file) apis fs
  /-- All in all, every operation has its method, and every method its operation. -/
  perm : (r.modules.flatMap fun m => m.draft.methods.map Emit.Method.call).Perm ((collect document).map Spec.call)

/-! ## The methods of a class -/

/-- What the module of a class is to be. -/
def ClassModule (settings : Settings) (group : String × List Spec) (m : Session) : Prop :=
  m.draft.apiName = some group.1 ∧ m.draft.filename = settings.apiModule group.1 ∧
    m.draft.methods.map Emit.Method.call = group.2.map Spec.call

/-- **The module of a class has one method for each of its operations**, in their order: what is read off a method, and comes
from its operation alone, is that of the operations. -/
theorem methods_comes {β : Type} (f : Emit.Method → β) (g : Spec → β)
    (hmade : ∀ (made : Operation.Prepared) spec text, f (made.method spec text) = g spec)
    {shared : Codegen.Workspace} (hready : Ready shared) {className : String} (hname : Dotless className) (specs : List Spec) :
    Comes (fun _ s => (s.draft.apiName = some className ∧ s.draft.filename = settings.apiModule className ∧
        s.draft.methods.map f = specs.map g) ∧ Ready s.shared) (fun _ _ => True)
      (classWork className specs (begun settings className shared)) := by
  have hmethod : ∀ (done : List Spec) (spec : Spec) (s : Session) (m : Emit.Method) (types : List Emit.TypeExpr)
      (u u' : Session), Fit u → u.draft.methods.map f = done.map g →
      m.returnType = Operation.returnType types → Codegen.addMethod m u = .ok () u' → Operation.generate spec s = .ok m u' →
      u'.draft.methods.map f = (done ++ [spec]).map g := by
    intro done spec s m types u u' _ hP _ hadd hrun
    obtain ⟨made, _, text, -, -, rfl⟩ := Operation.generate_inv hrun
    cases hadd
    dsimp only
    rw [List.map_append, List.map_append, hP, List.map_singleton, List.map_singleton, hmade]
  have h := classWork_comes (fun done _ _ s => s.draft.methods.map f = done.map g)
    (fun done => rules_methods fun methods => methods.map f = done.map g) hmethod hready hname
    (fun s (hopened : Opened settings className shared s) => by rw [hopened.draft]; rfl) specs
  exact h.mono fun _ s ⟨_, hsince, hready', hmethods⟩ => ⟨⟨hsince.apiName, hsince.filename, hmethods⟩, hready'⟩

theorem classModule_comes {shared : Codegen.Workspace} (hready : Ready shared) {className : String}
    (hname : Dotless className) (specs : List Spec) :
    Comes (fun _ s => ClassModule settings (className, specs) s ∧ Ready s.shared) (fun _ _ => True)
      (classWork className specs (begun settings className shared)) :=
  methods_comes Emit.Method.call Spec.call (fun _ _ _ => rfl) hready hname specs

/-- What the module of the component schemas is to be. -/
def DefinitionsModule (settings : Settings) (m : Session) : Prop :=
  m.draft.apiName = none ∧ m.draft.filename = settings.definitionsModule ∧ m.draft.methods = []

theorem definitionsModule_comes (settings : Settings) (schemas : List (String × Node)) :
    Comes (fun _ s => DefinitionsModule settings s ∧ Ready s.shared) (fun _ _ => True)
      (Generate.generateTypedefs schemas (Linking.World.definitions settings).session) :=
  (definitions_comes settings schemas).mono fun _ _ ⟨_, hsince, hready, hmethods⟩ =>
    ⟨⟨hsince.apiName, hsince.filename, hmethods⟩, hready⟩

/-! ## Whole runs -/

/-- **No operation is lost, duplicated or moved.** -/
theorem operations_partitioned {values : List (String × Node)} (hs : Settings.ofValues values = .ok settings)
    (document : Node) (hok : (generate document settings).failure = none) :
    ∃ definitions apis file fs index,
      Partitioned document settings (generate document settings) definitions apis file fs index := by
  have hdotless : ∀ entry ∈ Operation.group document settings.defaultApiName, Dotless entry.1 :=
    Operation.dotless_group (Settings.dotless_defaultApiName hs)
  obtain ⟨-, hwhole⟩ := generate_free settings document (fun _ => True) (DefinitionsModule settings) (ClassModule settings)
    ((definitionsModule_comes settings _).mono fun _ _ h => ⟨h.1, h.2, trivial⟩)
    fun className specs shared hmem hready _ =>
      (classModule_comes hready (hdotless _ hmem) specs).mono fun _ _ h => ⟨h.1, h.2, trivial⟩
  obtain ⟨hnames, definitions, apis, file, fs, index, hmodules, ⟨hnone, hfilename, hempty⟩, hmade, hfile, hprinted, hfiles,
    hindex⟩ := hwhole hok
  refine ⟨definitions, apis, file, fs, index, ?_⟩
  have hgroups := Operation.group_eq document settings.defaultApiName
  have hnames' : (generate document settings).apiNames =
      dropRepeats ((collect document).map (classOf document settings.defaultApiName)) := by
    rw [hnames, hgroups, List.map_map]
    exact List.map_id' _
  have hapis := hmade
  rw [hgroups, List.forall₂_map_left_iff, ← hnames'] at hmade
  have hnonempty : ∀ name ∈ (generate document settings).apiNames, name ≠ "" := by
    intro name hname
    rw [hnames', mem_dropRepeats] at hname
    obtain ⟨spec, -, rfl⟩ := List.mem_map.1 hname
    exact Operation.apiName_ne_empty (Settings.defaultApiName_ne_empty hs)
  have hnamed : ∀ m ∈ apis, ∃ name, m.draft.apiName = some name ∧ name ≠ "" := by
    intro m hm
    obtain ⟨name, hname, hmod⟩ := (exists_of_forall₂ hmade).2 m hm
    exact ⟨name, hmod.1, hnonempty name hname⟩
  have hcalls : apis.flatMap (fun m => m.draft.methods.map Emit.Method.call) =
      ((Operation.group document settings.defaultApiName).flatMap (·.2)).map Spec.call := by
    rw [flatMap_eq_of_forall₂ (hapis.imp fun group m h => h.2.2), List.map_flatMap]
  exact {
    modules := hmodules
    files := hfiles
    apiNames := hnames'
    nodup := hnames' ▸ nodup_dropRepeats _
    paths := by
      refine ⟨(file_eq_ok hfile).1.trans hfilename, ?_, hindex⟩
      have hfiles' : fs.map (·.path) = apis.map (·.draft.filename) :=
        forall₂_map_eq (hprinted.imp fun m f h => (file_eq_ok h).1)
      rw [hfiles']
      exact forall₂_map_eq (hmade.imp fun name m h => h.2.1)
    definitions := ⟨hfile, hnone, hempty⟩
    methods := hmade.imp fun name m h => ⟨h.1, h.2.2⟩
    shown := ((List.forall₂_and_left apis fs).2 ⟨hnamed, hprinted⟩).imp fun m f ⟨⟨name, hname, hne⟩, h⟩ =>
      ⟨h, name, hname, showsClass_of_file h hname hne⟩
    perm := by
      rw [hmodules, List.flatMap_cons, hempty, List.map_nil, List.nil_append, hcalls]
      exact (Operation.group_perm document settings.defaultApiName).map _ }

/-- Three calls for pets, of which one is for keepers. -/
def petShop : Node :=
  let call (tags : List Node) : Node := .map none [("tags", .list none tags), ("responses", .map none [])]
  .map (some "#") [("tags", .list none [.map none [("name", .str "keep"), ("x-codegen-class", .str "KeeperApi")]]),
    ("paths", .map none [("/pets", .map none [("get", call []), ("post", call [.str "keep"]), ("summary", .str "Pets")]),
      ("/pets/gone", .map none [("delete", call [.str "other"])])])]

theorem petShop_partitioned : (∃ definitions apis file fs index, Partitioned petShop Linking.petSettings
      (generate petShop Linking.petSettings) definitions apis file fs index) ∧
    (generate petShop Linking.petSettings).apiNames = ["DefaultApi", "KeeperApi"] ∧
    (generate petShop Linking.petSettings).modules.map (·.draft.methods.map Emit.Method.call) =
      [[], [("/pets", "get"), ("/pets/gone", "delete")], [("/pets", "post")]] :=
  ⟨operations_partitioned Linking.ofValues_petValues petShop (by decide +kernel), by decide +kernel, by decide +kernel⟩

end Making
end TypedClient
