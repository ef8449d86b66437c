import TypedClient.Proofs.Linking.Components
import TypedClient.Proofs.Making.Gains
/-!
# Accounts — no component schema is lost

The module of the component schemas is made component by component.  A mapping gains it its definition, the typedefs of the
members of a merge, and behind them its own typedef, or a warning that it has none; what is no mapping gains it a warning
(`gives_generateTypedefs`).  All in all the module holds what its components gain, in their order, and no name is defined twice
(`Accounts`).  So every mapping has exactly one definition, and exactly one typedef or a warning (`Accounts.accounted`); and
where two of them come to one name the module is not made at all (`components_accounted`).
-/
namespace TypedClient

open Codegen (Session Gen)
open Scope (Definition Symbol Table Tree)

/-- **Mappings are schemas**, and nothing else is. -/
theorem Schema.read?_eq_none_iff {node : Node} : Schema.read? node = none ↔ node.isMap = false := by
  cases node with
  | map path entries =>
    refine iff_of_false ?_ Bool.false_ne_true.symm
    unfold Schema.read?
    cases Schema.loneReference? entries with
    | some pointer => exact Option.some_ne_none _
    | none =>
      dsimp only
      cases Schema.membersIn? "allOf" entries with
      | some members => exact Option.some_ne_none _
      | none =>
        dsimp only
        split
        · exact Option.some_ne_none _
        · split
          · exact Option.some_ne_none _
          · exact Option.some_ne_none _
  | _ => exact iff_of_true rfl rfl

/-- The names that a table defines are among its names, in their order. -/
theorem Scope.Table.definitions_sublist : ∀ table : Table,
    ((table.filterMap Symbol.definition?).map (·.localName)).Sublist (table.map Symbol.localName)
  | [] => .slnil
  | .defined d :: rest => (definitions_sublist rest).cons_cons d.localName
  | .imported name _ :: rest => (definitions_sublist rest).cons name

/-! ## Warnings of a run -/

namespace Linking

variable {settings : Settings} {document : Node} {w v : World} {log : List Referral} {s t : Session}

/-- **What has been warned of stays.** -/
theorem Reaches.warnings (hw : w.Sound log) (h : Reaches w v) : w.session.shared.warnings ⊆ v.session.shared.warnings := by
  induction h with
  | refl => exact List.Subset.refl _
  | tail hreach hstep ih =>
    obtain ⟨log', -, hsound⟩ := Reaches.sound hw hreach
    cases hstep with
    | act hact => exact List.Subset.trans ih (hact.warnings hsound.numbered)
    | next => exact ih

theorem Breaks.warnings (h : Breaks w s) : s.shared.warnings = w.session.shared.warnings := by
  obtain ⟨name, place, isPublic, -, -, hdefine⟩ := h
  obtain ⟨tree, c, -, rfl, -⟩ := Codegen.define_eq_error hdefine
  rfl

/-- **A run warns of all that the module of the component schemas warned of**, however it ends. -/
theorem definitions_warnings {values : List (String × Node)} (hs : Settings.ofValues values = .ok settings)
    (hmade : Generate.generateTypedefs (Generate.componentSchemas document) (World.definitions settings).session = .ok () t) :
    t.shared.warnings ⊆ (generate document settings).warnings := by
  by_cases hne : Generate.componentSchemas document = []
  · rw [hne] at hmade
    cases hmade
    exact List.nil_subset _
  obtain ⟨w, hacts, rfl, hwaiting⟩ := definitions_made hmade
  obtain ⟨log, -, hw⟩ := hacts.reaches.sound (definitions_working settings).sound
  have hends := definitions_runEnds (Settings.dotless_defaultApiName hs) (List.append_nil _).symm hne hw hacts hwaiting hmade
  cases hrun : Generate.generateAll document settings Progress.start with
  | ok _ p =>
    rw [hrun] at hends
    obtain ⟨v, hv, -, hshared⟩ := hends
    rw [generate_of_ok hrun]
    exact hshared ▸ Reaches.warnings hw hv
  | error e p =>
    rw [hrun] at hends
    obtain ⟨-, v, hv, -, hend⟩ := hends
    rw [generate_of_error hrun]
    rcases hend with hshared | ⟨s, hbreaks, hshared⟩
    · exact hshared ▸ Reaches.warnings hw hv
    · exact hshared ▸ hbreaks.warnings ▸ Reaches.warnings hw hv

end Linking

namespace Making

open Linking (World bodilessText Progress.start)
open Naming (Plain)

variable {document : Node} {settings : Settings} {s definitions : Session} {schemas : List (String × Node)}
  {key name name' place place' : String} {node : Node} {g g' : Gain} {gains : List Gain}

/-! ## Components -/

/-- **What a component gives**: a mapping gives its definition, and its typedef behind those of its members, or a warning that it has
none; and what is no mapping gives a warning. -/
inductive Account : String × Node → Gain → Prop where
  | typed {key : String} {node : Node} {schema : Schema} {members remarks : List String}
    (hschema : Schema.read? node = some schema) (hmembers : members.Sublist (schema.memberNames (Naming.sanitize key)))
    (hremarks : ∀ message ∈ remarks, Remark message) :
    Account (key, node) ⟨Naming.sanitize key :: members, members ++ [Naming.sanitize key], remarks⟩
  | bodiless {key : String} {node : Node} {schema : Schema} (hschema : Schema.read? node = some schema) :
    Account (key, node)
      ⟨[Naming.sanitize key], [], [bodilessText (Naming.sanitize key) (Codegen.showPlace schema.path?)]⟩
  | skipped {key : String} {node : Node} (hschema : Schema.read? node = none) :
    Account (key, node) ⟨[], [], [skippedText key]⟩

theorem gives_component (key : String) {node : Node} {schema : Schema} (hschema : Schema.read? node = some schema) :
    Gives (Account (key, node)) (Codegen.generateTypedef (Naming.sanitize key) schema) := by
  have hname := (Naming.plain_sanitize key).dotless
  have haccount : ∀ (bodiless : Prop) g, EntryGain (schema.memberNames (Naming.sanitize key)) (Naming.sanitize key) schema.path?
      bodiless g → Account (key, node) g := by
    rintro _ _ ⟨_, ⟨members, remarks, rfl, hmembers, hremarks⟩ | ⟨-, rfl⟩, rfl⟩
    · exact .typed hschema hmembers hremarks
    · exact .bodiless hschema
  intro s
  unfold Codegen.generateTypedef
  cases hp : schema.path?.bind s.definitionAt? with
  | none => exact (givesAt_entry hname hp (gives_bodyOf hname schema) (Linking.quiet_bodyOf _ schema)).mono (haccount _)
  | some d => exact (givesAt_alias hname hp).mono (haccount False)

/-- All gains together. -/
def Gain.all (gains : List Gain) : Gain :=
  ⟨gains.flatMap (·.defined), gains.flatMap (·.typedefs), gains.flatMap (·.warnings)⟩

/-- **What the component schemas give**, one after the other. -/
theorem gives_generateTypedefs : ∀ schemas : List (String × Node),
    Gives (fun g => ∃ gains, List.Forall₂ Account schemas gains ∧ g = Gain.all gains) (Generate.generateTypedefs schemas)
  | [] => gives_pure _ ⟨[], .nil, rfl⟩
  | (key, node) :: rest => by
    have hrest := gives_generateTypedefs rest
    have hcons : ∀ g g', Account (key, node) g → (∃ gains, List.Forall₂ Account rest gains ∧ g' = Gain.all gains) →
        ∃ gains, List.Forall₂ Account ((key, node) :: rest) gains ∧ g ++ g' = Gain.all gains := by
      rintro g _ hg ⟨gains, hgains, rfl⟩
      exact ⟨g :: gains, .cons hg hgains, rfl⟩
    unfold Generate.generateTypedefs
    cases hschema : Schema.read? node with
    | some schema => exact (gives_component key hschema).bind (fun _ => hrest) hcons
    | none =>
      refine (gives_warn _).bind (fun _ => hrest) ?_
      rintro _ g' rfl hg'
      exact hcons _ g' (.skipped hschema) hg'

/-! ## What the components gain together -/

/-- The typedefs of a component are among its definitions. -/
theorem Account.subperm {entry : String × Node} (h : Account entry g) : g.typedefs.Subperm g.defined := by
  cases h with
  | typed => exact (List.perm_append_singleton _ _).subperm
  | bodiless => exact List.nil_subperm
  | skipped => exact List.nil_subperm

/-- A mapping gives its definition before all others. -/
theorem Account.defined_of_isMap (h : Account (key, node) g) (hnode : node.isMap = true) :
    ∃ members, g.defined = Naming.sanitize key :: members := by
  cases h with
  | typed => exact ⟨_, rfl⟩
  | bodiless => exact ⟨_, rfl⟩
  | skipped hschema => exact nomatch hnode.symm.trans (Schema.read?_eq_none_iff.1 hschema)

/-- What is no mapping gives its warning and nothing else. -/
theorem Account.eq_skipped (h : Account (key, node) g) (hnode : node.isMap = false) : g = ⟨[], [], [skippedText key]⟩ := by
  have hnone := Schema.read?_eq_none_iff.2 hnode
  cases h with
  | typed hschema => exact nomatch hnone.symm.trans hschema
  | bodiless hschema => exact nomatch hnone.symm.trans hschema
  | skipped => rfl

/-- **The names of mappings are among the definitions**, in their order. -/
theorem names_sublist (h : List.Forall₂ Account schemas gains) :
    ((schemas.filter (·.2.isMap)).map fun entry => Naming.sanitize entry.1).Sublist (gains.flatMap (·.defined)) := by
  induction h with
  | nil => exact .slnil
  | @cons entry g schemas gains hentry _ ih =>
    obtain ⟨key, node⟩ := entry
    cases hnode : node.isMap with
    | true =>
      obtain ⟨members, hdefined⟩ := hentry.defined_of_isMap hnode
      rw [List.filter_cons, if_pos hnode, List.map_cons, List.flatMap_cons, hdefined]
      exact (ih.trans (List.sublist_append_right members _)).cons_cons _
    | false =>
      rw [List.filter_cons, if_neg (Bool.eq_false_iff.1 hnode), hentry.eq_skipped hnode]
      exact ih

/-- **How the module of the component schemas accounts for them**: what it holds is what they gain, in their order, and no
name is defined twice. -/
structure Accounts (schemas : List (String × Node)) (definitions : Session) (gains : List Gain) : Prop where
  accounts : List.Forall₂ Account schemas gains
  defined : definedNames definitions = gains.flatMap (·.defined)
  typedefs : definitions.draft.typedefs.map (·.name) = gains.flatMap (·.typedefs)
  warnings : definitions.shared.warnings = gains.flatMap (·.warnings)
  nodup : (definedNames definitions).Nodup

theorem accounts_of_ok (h : Generate.generateTypedefs schemas (World.definitions settings).session = .ok () definitions) :
    ∃ gains, Accounts schemas definitions gains := by
  have hgives := gives_generateTypedefs schemas _ (fit_definitions settings)
  rw [h] at hgives
  obtain ⟨hfit, _, ⟨gains, haccounts, rfl⟩, hgained⟩ := hgives
  refine ⟨gains, haccounts, ?_, hgained.typedefs, hgained.warnings, ?_⟩
  · exact hgained.defined
  · exact (hfit.sound.nodup definitions.draft.scope).sublist (Scope.Table.definitions_sublist _)

namespace Accounts

theorem nodup_typedefs (h : Accounts schemas definitions gains) : (definitions.draft.typedefs.map (·.name)).Nodup := by
  have hnodup := h.nodup
  rw [h.defined, List.nodup_flatMap] at hnodup
  rw [h.typedefs, List.nodup_flatMap]
  have hsub : ∀ g ∈ gains, g.typedefs.Subperm g.defined := fun g hg =>
    have ⟨_, _, haccount⟩ := (exists_of_forall₂ h.accounts).2 g hg
    haccount.subperm
  refine ⟨fun g hg => ?_, hnodup.2.imp_of_mem fun {g g'} hg hg' hdisjoint => ?_⟩
  · obtain ⟨names, hperm, hsublist⟩ := hsub g hg
    exact hperm.nodup_iff.1 ((hnodup.1 g hg).sublist hsublist)
  · exact fun name hname hname' => hdisjoint ((hsub g hg).subset hname) ((hsub g' hg').subset hname')

/-- **A definition is gained by one component.** -/
theorem unique (h : Accounts schemas definitions gains) (hg : g ∈ gains) (hg' : g' ∈ gains) (hname : name ∈ g.defined)
    (hname' : name ∈ g'.defined) : g = g' :=
  eq_of_mem_flatMap (h.defined ▸ h.nodup) hg hg' hname hname'

end Accounts

/-! ## Component by component -/

theorem bodilessText_inj (h : Plain name) (h' : Plain name') (heq : bodilessText name place = bodilessText name' place') :
    name = name' := by
  have hlist := congrArg String.toList heq
  unfold bodilessText at hlist
  simp only [String.toList_append, List.append_assoc, List.append_cancel_left_eq] at hlist
  have htake : ∀ {name : String} (rest : List Char), Plain name →
      (name.toList ++ ("' (".toList ++ rest)).takeWhile Naming.isIdentifierChar = name.toList := by
    intro name rest hplain
    rw [List.takeWhile_append_of_pos hplain]
    exact List.append_nil _
  have hsame := congrArg (List.takeWhile Naming.isIdentifierChar) hlist
  rw [htake _ h, htake _ h'] at hsame
  exact String.toList_inj.1 hsame

/-- **A component is accounted for**: its name has one definition, and either one typedef or a warning that there is none. -/
structure Accounted (definitions : Session) (name : String) : Prop where
  defined : (definedNames definitions).count name = 1
  typedef : ((definitions.draft.typedefs.map (·.name)).count name = 1 ∧
      ∀ place, bodilessText name place ∉ definitions.shared.warnings) ∨
    (name ∉ definitions.draft.typedefs.map (·.name) ∧ ∃ place, bodilessText name place ∈ definitions.shared.warnings)

namespace Accounts

/-- The warning that there is no typedef of a name comes from a component of that name. -/
theorem bodiless_of_mem (h : Accounts schemas definitions gains) (hname : Plain name)
    (hmem : bodilessText name place ∈ definitions.shared.warnings) :
    ∃ g ∈ gains, name ∈ g.defined ∧ g.typedefs = [] := by
  rw [h.warnings] at hmem
  obtain ⟨g, hg, hwarned⟩ := List.mem_flatMap.1 hmem
  obtain ⟨_, -, haccount⟩ := (exists_of_forall₂ h.accounts).2 g hg
  cases haccount with
  | typed _ _ hremarks => exact absurd rfl ((hremarks _ hwarned).1 name place)
  | bodiless =>
    have heq := bodilessText_inj hname (Naming.plain_sanitize _) (List.mem_singleton.1 hwarned)
    exact ⟨_, hg, heq ▸ List.mem_cons_self, rfl⟩
  | skipped => exact absurd (List.mem_singleton.1 hwarned) (bodilessText_ne_skippedText _ _ _)

/-- **Every mapping is accounted for.** -/
theorem accounted (h : Accounts schemas definitions gains) (hmem : (key, node) ∈ schemas) (hnode : node.isMap = true) :
    Accounted definitions (Naming.sanitize key) := by
  obtain ⟨g, hg, haccount⟩ := (exists_of_forall₂ h.accounts).1 _ hmem
  have hdefined : Naming.sanitize key ∈ g.defined → (definedNames definitions).count (Naming.sanitize key) = 1 :=
    fun hname => List.count_eq_one_of_mem h.nodup (h.defined ▸ List.mem_flatMap.2 ⟨g, hg, hname⟩)
  cases haccount with
  | typed =>
    have htypedef : Naming.sanitize key ∈ definitions.draft.typedefs.map (·.name) :=
      h.typedefs ▸ List.mem_flatMap.2 ⟨_, hg, List.mem_append_right _ List.mem_cons_self⟩
    refine ⟨hdefined List.mem_cons_self, .inl ⟨List.count_eq_one_of_mem h.nodup_typedefs htypedef, fun place hwarned => ?_⟩⟩
    -- a component that is warned of would be this one, and have no typedef
    obtain ⟨g', hg', hname, hnone⟩ := h.bodiless_of_mem (Naming.plain_sanitize key) hwarned
    rw [← h.unique hg hg' List.mem_cons_self hname] at hnone
    exact List.append_ne_nil_of_right_ne_nil _ (List.cons_ne_nil _ _) hnone
  | bodiless =>
    refine ⟨hdefined List.mem_cons_self, .inr ⟨fun htypedef => ?_, ?_⟩⟩
    · -- a component with a typedef of the name would be this one
      rw [h.typedefs] at htypedef
      obtain ⟨g', hg', hname⟩ := List.mem_flatMap.1 htypedef
      obtain ⟨_, -, haccount'⟩ := (exists_of_forall₂ h.accounts).2 g' hg'
      rw [← h.unique hg hg' List.mem_cons_self (haccount'.subperm.subset hname)] at hname
      cases hname
    · rw [h.warnings]
      exact ⟨_, List.mem_flatMap.2 ⟨_, hg, List.mem_cons_self⟩⟩
  | skipped hschema => exact nomatch hnode.symm.trans (Schema.read?_eq_none_iff.1 hschema)

/-- **What is no mapping is warned of.** -/
theorem skipped (h : Accounts schemas definitions gains) (hmem : (key, node) ∈ schemas) (hnode : node.isMap = false) :
    skippedText key ∈ definitions.shared.warnings := by
  obtain ⟨g, hg, haccount⟩ := (exists_of_forall₂ h.accounts).1 _ hmem
  rw [h.warnings]
  exact List.mem_flatMap.2 ⟨g, hg, haccount.eq_skipped hnode ▸ List.mem_cons_self⟩

end Accounts

/-! ## The run -/

/-- **The first module that a run prints is that of the component schemas**, as it stands when it is made. -/
theorem made_of_head? {values : List (String × Node)} (hs : Settings.ofValues values = .ok settings)
    (hhead : (generate document settings).modules.head? = some definitions) :
    Generate.generateTypedefs (Generate.componentSchemas document) (World.definitions settings).session = .ok () definitions ∧
      ∃ file ∈ (generate document settings).files, definitions.file = .ok file := by
  have hname := Settings.dotless_defaultApiName hs
  have hdef : Comes (fun _ s => Generate.generateTypedefs (Generate.componentSchemas document)
      (World.definitions settings).session = .ok () s ∧ Ready s.shared ∧ True) (fun _ _ => True)
      (Generate.generateTypedefs (Generate.componentSchemas document) (World.definitions settings).session) := by
    have h := definitions_comes settings (Generate.componentSchemas document)
    cases hr : Generate.generateTypedefs (Generate.componentSchemas document) (World.definitions settings).session with
    | error e s => trivial
    | ok _ s =>
      rw [hr] at h
      exact ⟨rfl, h.2.2.1, trivial⟩
  obtain ⟨hone, -⟩ := generate_free settings document (fun _ => True) _ (fun _ _ => True) hdef
    fun className specs shared hmem hready _ => (classWork_comes (fun _ _ _ _ => True) (fun _ => rules_methods fun _ => True)
      (fun _ _ _ _ _ _ _ _ _ _ _ _ => trivial) hready (Operation.dotless_group hname _ hmem) (fun _ _ => trivial)
      specs).mono fun _ _ ⟨_, _, hready', _⟩ => ⟨trivial, hready', trivial⟩
  obtain ⟨⟨-, hmade⟩ | ⟨hzero, -⟩, hfile⟩ := hone 0 definitions (List.head?_eq_getElem? ▸ hhead)
  · exact ⟨hmade, hfile⟩
  · exact absurd rfl hzero

/-- A run that does not make the module of the component schemas prints no module, and fails. -/
theorem failure_of_unmade
    (h : ∀ definitions, Generate.generateTypedefs (Generate.componentSchemas document) (World.definitions settings).session ≠
      .ok () definitions) :
    (generate document settings).modules = [] ∧ (generate document settings).failure ≠ none := by
  cases hm : document.isMap with
  | false =>
    obtain ⟨p, hrun, -, hmodules⟩ := Linking.generateAll_not_mapping hm settings
    rw [Linking.generate_of_error hrun]
    exact ⟨hmodules, nofun⟩
  | true =>
    cases hr : Generate.generateTypedefs (Generate.componentSchemas document) (World.definitions settings).session with
    | ok _ s => exact absurd hr (h s)
    | error e s =>
      have hrun := generateModules_eq document settings (World.definitions settings).session.draft
        (Generate.componentSchemas document) (Linking.Progress.definitions settings)
      have hsession : (⟨(Linking.Progress.definitions settings).shared, (World.definitions settings).session.draft⟩ : Session) =
          (World.definitions settings).session := rfl
      rw [← Linking.generateAll_mapping hm settings, hsession, hr] at hrun
      rw [Linking.generate_of_error hrun]
      exact ⟨rfl, nofun⟩

/-- **No component schema is lost.**  When a run has made the module of the component schemas, this holds what they gain, in
their order: every mapping has exactly one definition of its name and exactly one typedef of it, behind those of its members,
or a warning that there is none; and everything else is warned of, and gains no definition.  The run warns of all this, however
it goes on, and the module is the first that it prints.  Where two mappings come to one name, the run fails before it prints a
module. -/
theorem components_accounted {values : List (String × Node)} (hs : Settings.ofValues values = .ok settings)
    (document : Node) :
    (∀ definitions,
      Generate.generateTypedefs (Generate.componentSchemas document) (World.definitions settings).session =
        .ok () definitions →
      definitions.draft.filename = settings.definitionsModule ∧
      definitions.shared.warnings ⊆ (generate document settings).warnings ∧
      (∃ gains, Accounts (Generate.componentSchemas document) definitions gains) ∧
      ∀ key node, (key, node) ∈ Generate.componentSchemas document →
        (node.isMap = true → Accounted definitions (Naming.sanitize key)) ∧
        (node.isMap = false → skippedText key ∈ definitions.shared.warnings)) ∧
    (∀ definitions, (generate document settings).modules.head? = some definitions →
      Generate.generateTypedefs (Generate.componentSchemas document) (World.definitions settings).session =
        .ok () definitions ∧
      ∃ file ∈ (generate document settings).files, definitions.file = .ok file) ∧
    (¬ (((Generate.componentSchemas document).filter (·.2.isMap)).map fun entry => Naming.sanitize entry.1).Nodup →
      (generate document settings).modules = [] ∧ (generate document settings).failure ≠ none) := by
  refine ⟨fun definitions hmade => ?_, fun definitions => made_of_head? hs, fun hclash => failure_of_unmade fun definitions hmade => ?_⟩
  · obtain ⟨gains, haccounts⟩ := accounts_of_ok hmade
    have hsince := definitions_comes settings (Generate.componentSchemas document)
    rw [hmade] at hsince
    refine ⟨hsince.2.1.filename, Linking.definitions_warnings hs hmade, ⟨gains, haccounts⟩, fun key node hmem => ?_⟩
    exact ⟨haccounts.accounted hmem, haccounts.skipped hmem⟩
  · obtain ⟨gains, haccounts⟩ := accounts_of_ok hmade
    exact hclash ((haccounts.defined ▸ haccounts.nodup).sublist (names_sublist haccounts.accounts))

/-- A merge with a member that gets a typedef of its own, a schema that gets none, and what is no schema. -/
def petsAndToys : Node :=
  let object : Node := .map none [("type", .str "object")]
  .map (some "#") [("components", .map none [("schemas", .map none [
    ("pet or toy", .map (some "#/components/schemas/pet or toy") [("allOf", .list none [object, .map none []])]),
    ("Name", .map (some "#/components/schemas/Name") [("type", .str "string")]), ("Odd", .int 5)])])]

/-- Two schemas of one name. -/
def twoToys : Node :=
  .map (some "#") [("components", .map none [("schemas", .map none [("pet-toy", .map none []), ("pet toy", .map none [])])])]

theorem petsAndToys_accounted : (∃ definitions,
      Generate.generateTypedefs (Generate.componentSchemas petsAndToys) (World.definitions Linking.petSettings).session =
        .ok () definitions ∧
      (∃ gains, Accounts (Generate.componentSchemas petsAndToys) definitions gains) ∧
      Accounted definitions (Naming.sanitize "pet or toy") ∧ Accounted definitions (Naming.sanitize "Name") ∧
      skippedText "Odd" ∈ (generate petsAndToys Linking.petSettings).warnings) ∧
    (generate twoToys Linking.petSettings).modules = [] ∧ (generate twoToys Linking.petSettings).failure ≠ none := by
  obtain ⟨hall, -, -⟩ := components_accounted Linking.ofValues_petValues petsAndToys
  obtain ⟨-, -, hclash⟩ := components_accounted Linking.ofValues_petValues twoToys
  refine ⟨?_, hclash (by decide +kernel)⟩
  obtain ⟨_, definitions, hmade⟩ := exists_of_succeeds (r := Generate.generateTypedefs
    (Generate.componentSchemas petsAndToys) (World.definitions Linking.petSettings).session) (by decide +kernel)
  obtain ⟨-, hwarnings, hgains, hcomponents⟩ := hall definitions hmade
  refine ⟨definitions, hmade, hgains, ?_, ?_, hwarnings ?_⟩
  · exact (hcomponents "pet or toy" _ List.mem_cons_self).1 rfl
  · exact (hcomponents "Name" _ (List.mem_cons_of_mem _ List.mem_cons_self)).1 rfl
  · exact (hcomponents "Odd" (.int 5) (List.mem_cons_of_mem _ (List.mem_cons_of_mem _ List.mem_cons_self))).2 rfl

end Making
end TypedClient
