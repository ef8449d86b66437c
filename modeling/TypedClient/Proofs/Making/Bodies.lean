import TypedClient.Proofs.Linking.Components
import TypedClient.Proofs.Making.Runs
/-!
# Bodies — every registered name has its typedef

Where scalars get typedefs, a name is left without one for one reason only: its component came out of the expansion as a
reference and nothing else, and what that refers to has no definition yet (`bodyOf_eq_none`).  Then the definition is `Left`.
All other definitions that are entered for schemas have their typedef, and all names in types stand for one that has
(`bodies_generated`).
-/
namespace TypedClient
namespace Making

open Codegen (Session Workspace)
open Linking (World Types Defines Exported Printed)
open Operation (Spec)
open Scope (Definition Symbol Table Tree)

variable {document : Node} {settings : Settings} {s s' : Session} {left : Definition → Prop}

/-! ## Names without typedefs -/

/-- **Why a name is left without a typedef** although scalars get one: its schema is a reference. -/
theorem bodyOf_eq_none {name : String} {schema : Schema} (h : Codegen.bodyOf name schema s = .ok none s')
    (hscalars : s.draft.aliasScalars = true) : ∃ pointer, schema = .reference pointer := by
  have hscalar : ∀ {type : Codegen.Gen Emit.TypeExpr}, Codegen.scalarBody type s ≠ .ok none s' := by
    intro type
    rw [Linking.scalarBody_eq, if_pos hscalars]
    exact Linking.ne_none_of_some s s'
  cases schema with
  | reference pointer => exact ⟨pointer, rfl⟩
  | object info properties required => exact absurd h (Linking.ne_none_of_some s s')
  | array info items => exact absurd h (Linking.ne_none_of_some s s')
  | merge info members => exact absurd h (Linking.ne_none_of_some s s')
  | enumeration info type values =>
    change (if type = "string" then _ else _ : Codegen.Gen _) s = _ at h
    split at h
    · exact absurd h (Linking.ne_none_of_some s s')
    · exact absurd h hscalar
  | primitive info types => exact absurd h hscalar
  | untyped info => exact absurd h hscalar

/-- **Whether a definition is that of a component that comes to a reference and nothing else**: it bears the component's name,
and the place that the reference points to. -/
def Left (document : Node) (d : Definition) : Prop :=
  ∃ key node pointer, (key, node) ∈ Generate.componentSchemas document ∧ Schema.read? node = some (.reference pointer) ∧
    d.localName = Naming.sanitize key ∧ d.specPath = some pointer

/-- Whether the places without a typedef body are those of definitions that are left. -/
def Marked (document : Node) (shared : Workspace) : Prop :=
  ∀ place ∈ shared.bodiless, ∃ home ≠ 0, ∃ d, .defined d ∈ shared.scopes.table home ∧ d.specPath = some place ∧
    Left document d

/-- **Whether what is entered for schemas has its typedef**, now or as soon as what is waiting is done, except what may be
left; the class of a module is public, and is no such entry. -/
structure Bodied (document : Node) (left : Definition → Prop) (waiting : List String) (s : Session) : Prop where
  scalars : s.draft.aliasScalars = true
  typed : ∀ d, .defined d ∈ s.shared.scopes.table s.draft.scope → d.isPublic = false →
    Types s.draft d.localName ∨ d.localName ∈ waiting ∨ left d
  marked : Marked document s.shared

theorem Marked.grown {shared shared' : Workspace} {added : Scope.Id → Table} (h : Marked document shared)
    (hg : Tree.Grown shared.scopes shared'.scopes added) (hbodiless : shared'.bodiless = shared.bodiless) :
    Marked document shared' := by
  intro place hplace
  obtain ⟨home, h0, d, hd, hrest⟩ := h place (hbodiless ▸ hplace)
  exact ⟨home, h0, d, hg.mem hd, hrest⟩

/-- **The single steps keep this.** -/
theorem rules_bodied (document : Node) (left : Definition → Prop) :
    FreeRules fun waiting _ s => Bodied document left waiting s where
  dotless h := h
  mono h _ := h
  warn message h hs := by
    cases hs
    exact ⟨h.scalars, h.typed, h.marked⟩
  enter {waiting _ s s' name place d} hfit h _ _ hs := by
    have hsince := hfit.since_define hs
    obtain ⟨t, rfl, hlocal, -, -, htable, -⟩ := hfit.entered hs
    obtain ⟨added, hg, -⟩ := hsince.grown
    refine ⟨h.scalars, fun d' hd hprivate => ?_, h.marked.grown hg rfl⟩
    change _ ∈ t.table s.draft.scope at hd
    rw [htable, List.mem_append, List.mem_singleton] at hd
    rcases hd with hd | hd
    · exact (h.typed d' hd hprivate).imp_right (·.imp_left (List.mem_cons_of_mem _))
    · rw [Symbol.defined.inj hd, hlocal]
      exact .inr (.inl List.mem_cons_self)
  clash _ _ _ _ _ := trivial
  use {waiting _ s s' place d name} hfit h hp hs := by
    obtain ⟨t, home, e, -, -, himports, -, hs'⟩ := hfit.use hp hs
    obtain ⟨added, hg, -⟩ := himports.grown
    have htyped : ∀ d', .defined d' ∈ t.table s.draft.scope → d'.isPublic = false →
        Types s.draft d'.localName ∨ d'.localName ∈ waiting ∨ left d' :=
      fun d' hd => h.typed d' (himports.defined hd)
    have hmarked : Marked document (s.withScopes t).shared := h.marked.grown hg rfl
    rcases hs' with rfl | ⟨q, rfl⟩
    · exact ⟨h.scalars, htyped, hmarked⟩
    · exact ⟨h.scalars, htyped, hmarked⟩
  finish {waiting _ s s' t} h hs := by
    cases hs
    refine ⟨h.scalars, fun d hd hprivate => ?_, h.marked⟩
    rcases h.typed d hd hprivate with ⟨u, hu, hname⟩ | hwait | hleft
    · exact .inl ⟨u, List.mem_append_left _ hu, hname⟩
    · rcases List.mem_cons.1 hwait with heq | hwait
      · exact .inl ⟨t, List.mem_append_right _ List.mem_cons_self, heq.symm⟩
      · exact .inr (.inl hwait)
    · exact .inr (.inr hleft)
  literal _ _ _ := trivial

/-- **A component is left without a typedef** when it is a reference. -/
theorem Bodied.leave {waiting : List String} {key : String} {node : Node} {schema : Schema}
    (h : Bodied document (Left document) (Naming.sanitize key :: waiting) s) (hfit : Fit s)
    (hkey : (key, node) ∈ Generate.componentSchemas document) (hread : Schema.read? node = some schema)
    (hentered : Entered s (Naming.sanitize key) schema.path?)
    (hnone : Codegen.bodyOf (Naming.sanitize key) schema s = .ok none s) :
    Bodied document (Left document) waiting (s.leave (Naming.sanitize key) schema.path?) := by
  obtain ⟨pointer, rfl⟩ := bodyOf_eq_none hnone h.scalars
  obtain ⟨e, he, hname, hplace⟩ := hentered
  have hleft : Left document e := ⟨key, node, pointer, hkey, hread, hname, hplace⟩
  refine ⟨h.scalars, fun d hd hprivate => ?_, fun place hmarked => ?_⟩
  · rcases h.typed d hd hprivate with htypes | hwait | hold
    · exact .inl htypes
    · rcases List.mem_cons.1 hwait with heq | hwait
      · -- a module has no name twice
        cases Table.eq_of_localName (hfit.sound.nodup _) hd he (heq.trans hname.symm)
        exact .inr (.inr hleft)
      · exact .inr (.inl hwait)
    · exact .inr (.inr hold)
  · rcases Codegen.Session.mem_bodiless_leave hmarked with hold | hnew
    · exact h.marked place hold
    · exact ⟨_, hfit.isModule.1, e, he, hplace.trans hnew, hleft⟩

/-! ## Modules and runs -/

theorem bodied_definitions (hscalars : settings.aliasScalarTypedefs = true) :
    Comes (fun _ s => Bodied document (Left document) [] s ∧ Ready s.shared) (fun _ _ => True)
      (Generate.generateTypedefs (Generate.componentSchemas document) (World.definitions settings).session) := by
  have hstart : Bodied document (Left document) [] (World.definitions settings).session := by
    refine ⟨hscalars, fun d hd => ?_, nofun⟩
    have hempty : (World.definitions settings).session.shared.scopes.table (World.definitions settings).session.draft.scope =
        [] := rfl
    rw [hempty] at hd
    cases hd
  refine (generateTypedefs_comes _ (rules_bodied document (Left document)) ?_ (fit_definitions settings)
    (ready_definitions settings) hstart).mono fun _ s h => ⟨h.2.2.2.2, h.2.2.1⟩
  exact fun key node schema hkey hread waiting owed s hfit hentered h hnone => h.leave hfit hkey hread hentered hnone

theorem bodied_class (hscalars : settings.aliasScalarTypedefs = true) {shared : Workspace} (hready : Ready shared)
    (hmarked : Marked document shared) {className : String} (hname : Dotless className) (specs : List Spec) :
    Comes (fun _ s => Bodied document (fun _ => False) [] s ∧ Ready s.shared) (fun _ _ => True)
      (classWork className specs (begun settings className shared)) := by
  refine (classWork_comes (fun _ waiting _ s => Bodied document (fun _ => False) waiting s)
    (fun _ => rules_bodied document fun _ => False) ?_ hready hname ?_ specs).mono fun _ s h => ⟨h.2.2.2, h.2.2.1⟩
  · intro done spec s m types u u' _ h _ hadd _
    cases hadd
    exact ⟨h.scalars, h.typed, h.marked⟩
  · intro s hopened
    obtain ⟨c, htable, -, hpublic, -⟩ := hopened.table
    obtain ⟨added, hg, -⟩ := hopened.since.grown
    refine ⟨hopened.since.aliasScalars.trans hscalars, fun d hd hprivate => ?_, ?_⟩
    · rw [htable, List.mem_cons, List.mem_singleton] at hd
      rcases hd with hd | hd
      · cases hd
      · rw [Symbol.defined.inj hd, hpublic] at hprivate
        cases hprivate
    · have hbegun : Marked document (begun settings className shared).shared := by
        intro place hplace
        obtain ⟨home, h0, d, hd, hrest⟩ := hmarked place hplace
        exact ⟨home, h0, d, (table_begun settings className shared home).symm ▸ hd, hrest⟩
      exact hbegun.grown hg hopened.bodiless

/-- **Whether a printed module has all its bodies**: every definition that was entered for a schema has its typedef there, or
is left in the module of the component schemas; and every name in a type is the module's own typedef, is imported from a module
printed no later that exports it, or stands for a definition that is left. -/
structure WithBodies (document : Node) (settings : Settings) (printed : List Session) (i : Nat) (m : Session) : Prop where
  typed : ∀ d, .defined d ∈ m.shared.scopes.table m.draft.scope → d.isPublic = false →
    Types m.draft d.localName ∨ i = 0 ∧ Left document d
  named : ∀ name ∈ m.names, Defines m name ∨
    (∃ source d, (name, source) ∈ m.imports ∧ m.shared.scopes.symbol? m.draft.scope source = some (.defined d) ∧
      Exported settings printed source d) ∨
    ∃ home d, m.shared.scopes.Designates m.draft.scope name home d ∧ Left document d

theorem Marked.of_bodiless {m : Session} (h : Marked document m.shared) (hsound : m.shared.scopes.Sound) {place : String}
    (hplace : place ∈ m.shared.bodiless) {home : Scope.Id} {d : Definition} (h0 : home ≠ 0)
    (hd : .defined d ∈ m.shared.scopes.table home) (hp : d.specPath = some place) : Left document d := by
  obtain ⟨home', h0', d', hd', hp', hleft⟩ := h place hplace
  obtain ⟨-, rfl⟩ := hsound.placed home h0 home' h0' d d' place hd hd' hp hp'
  exact hleft

/-- **A name in a printed module** stands for a definition with a typedef, or for one that is left. -/
theorem Marked.named {since v : World} {log : List Linking.Referral} {before : List Session} {m : Session}
    (h : Marked document m.shared) (hprinted : Printed settings since before m v log) :
    ∀ name ∈ m.names, Defines m name ∨
      (∃ source d, (name, source) ∈ m.imports ∧ m.shared.scopes.symbol? m.draft.scope source = some (.defined d) ∧
        Exported settings (before ++ [m]) source d) ∨
      ∃ home d, m.shared.scopes.Designates m.draft.scope name home d ∧ Left document d := by
  have hcomplete := hprinted.complete (List.Subset.refl m.shared.warnings) (List.Subset.refl log)
  obtain ⟨-, hsound, rfl, -, -⟩ := hprinted
  have hleft : ∀ {name}, Linking.LeftOut v.session.shared.warnings log (before ++ [v.session]) v.session name →
      ∃ home d, v.scopes.Designates v.scope name home d ∧ Left document d := by
    rintro name ⟨home, d, place, hd, hp, -, -, hlog⟩
    obtain ⟨-, -, -, -, hbodiless⟩ := hsound.logged.entries _ hlog
    exact ⟨home, d, hd, h.of_bodiless hsound.numbered.scopes hbodiless
      (hd.home_ne_zero hsound.numbered.isModule.1) hd.defined hp⟩
  intro name hname
  rcases hcomplete.named name hname with hdefines | ⟨source, hi⟩ | hout
  · exact .inl hdefines
  · obtain ⟨d, hsymbol, hexported | hout⟩ := hcomplete.imported name source hi
    · exact .inr (.inl ⟨source, d, hi, hsymbol, hexported⟩)
    · exact .inr (.inr (hleft hout))
  · exact .inr (.inr (hleft hout))

/-- The printed modules of a run that comes to its end, with what was known when they were printed. -/
theorem exists_printed (hname : Dotless settings.defaultApiName) (hok : (generate document settings).failure = none)
    {i : Nat} {m : Session} (hm : (generate document settings).modules[i]? = some m) :
    ∃ v log, Printed settings (.start settings) ((generate document settings).modules.take i) m v log := by
  have hrun := Linking.generateAll_runEnds hname document
  cases hr : Generate.generateAll document settings Linking.Progress.start with
  | error e p =>
    rw [Linking.generate_of_error hr] at hok
    cases hok
  | ok _ p =>
    rw [hr] at hrun
    rw [Linking.generate_of_ok hr] at hm ⊢
    obtain ⟨w, log, h⟩ := hrun
    obtain ⟨v, log', hprinted, -, -⟩ := h.printed i m hm
    exact ⟨v, log', hprinted⟩

/-- **With typedefs for scalars, every registered name has its body**, and no type refers to a name without one, except where a
component comes to a reference and nothing else. -/
theorem bodies_generated {values : List (String × Node)} (hs : Settings.ofValues values = .ok settings)
    (hscalars : settings.aliasScalarTypedefs = true) (document : Node) {i : Nat} {m : Session}
    (hm : (generate document settings).modules[i]? = some m) (hok : (generate document settings).failure = none) :
    WithBodies document settings ((generate document settings).modules.take (i + 1)) i m := by
  have hname := Settings.dotless_defaultApiName hs
  obtain ⟨hmade, -⟩ := generate_free settings document (Marked document)
    (Bodied document (Left document) []) (fun _ => Bodied document (fun _ => False) [])
    ((bodied_definitions hscalars).mono fun _ _ h => ⟨h.1, h.2, h.1.marked⟩)
    fun className specs shared hmem hready hmarked =>
      (bodied_class hscalars hready hmarked (Operation.dotless_group hname _ hmem) specs).mono fun _ _ h =>
        ⟨h.1, h.2, h.1.marked⟩
  obtain ⟨v, log, hprinted⟩ := exists_printed hname hok hm
  have htake : (generate document settings).modules.take (i + 1) = (generate document settings).modules.take i ++ [m] := by
    rw [List.take_add_one, hm]
    rfl
  rw [htake]
  rcases (hmade i m hm).1 with ⟨rfl, h⟩ | ⟨-, group, -, h⟩
  · exact ⟨fun d hd hprivate => (h.typed d hd hprivate).imp_right fun hrest => ⟨rfl, hrest.resolve_left nofun⟩,
      h.marked.named hprinted⟩
  · exact ⟨fun d hd hprivate => .inl ((h.typed d hd hprivate).resolve_right (·.elim nofun id)), h.marked.named hprinted⟩

/-! ## A name for nothing -/

/-- Settings with typedefs for scalars. -/
def scalarValues : List (String × Node) := Linking.petValues ++ [("alias_scalar_typedefs", .bool true)]

def scalarSettings : Settings := { Linking.petSettings with aliasScalarTypedefs := true }

theorem ofValues_scalarValues : Settings.ofValues scalarValues = .ok scalarSettings := rfl

/-- A document of component schemas. -/
def withSchemas (schemas : List (String × Node)) : Node :=
  .map none [("components", .map none [("schemas", .map none schemas)])]

/-- The document, expanded. -/
def withSchemasOut (schemas : List (String × Node)) : Node :=
  .map (some "#") [("components", .map (some "#/components") [("schemas", .map (some "#/components/schemas") schemas)])]

/-- A schema that says nothing, expanded, or what a reference to it comes to. -/
def blankAt (key : String) (entries : List (String × Node)) : Node :=
  .map (some (componentPlace key)) entries

/-- Anything, a note, which is another name for it, and a count. -/
def notesOut : Node :=
  withSchemasOut [("Anything", blankAt "Anything" []),
    ("Note", blankAt "Anything" [("$ref", .str (componentPlace "Anything"))]),
    ("Count", blankAt "Count" [("type", .str "integer")])]

theorem notes_bodies : (withSchemas [("Anything", .map none []), ("Note", Linking.referenceTo "Anything"),
      ("Count", .map none [("type", .str "integer")])]).expand = .ok notesOut ∧
    ∃ m, (generate notesOut scalarSettings).modules = [m] ∧ WithBodies notesOut scalarSettings [m] 0 m ∧
      Linking.declarations m = ["export type Anything = any;\n", "export type Note = Anything;\n",
        "export type Count = number;\n"] := by
  refine ⟨by decide +kernel, ?_⟩
  obtain ⟨m, hm⟩ : ∃ m, (generate notesOut scalarSettings).modules = [m] :=
    List.length_eq_one_iff.1 (by decide +kernel)
  have hdeclarations : (generate notesOut scalarSettings).modules.map Linking.declarations =
      [["export type Anything = any;\n", "export type Note = Anything;\n", "export type Count = number;\n"]] := by
    decide +kernel
  have hbodies := bodies_generated (i := 0) (m := m) ofValues_scalarValues rfl notesOut (by rw [hm]; rfl) (by decide +kernel)
  rw [hm] at hdeclarations hbodies
  exact ⟨m, hm, hbodies, (List.cons.inj hdeclarations).1⟩

/-- The note before what it is another name for. -/
def earlyNoteOut : Node :=
  withSchemasOut [("Note", blankAt "Anything" [("$ref", .str (componentPlace "Anything"))]),
    ("Anything", blankAt "Anything" [])]

/-- **A note that comes first has no body**: it is registered, and the other name is an alias of it, but no typedef of it is
there. -/
theorem earlyNote_bodiless : (withSchemas [("Note", Linking.referenceTo "Anything"), ("Anything", .map none [])]).expand =
      .ok earlyNoteOut ∧
    scalarSettings.aliasScalarTypedefs = true ∧ (generate earlyNoteOut scalarSettings).failure = none ∧
    ∃ m d, (generate earlyNoteOut scalarSettings).modules = [m] ∧ .defined d ∈ m.shared.scopes.table m.draft.scope ∧
      d.isPublic = false ∧ d.localName = "Note" ∧ m.names = ["Note"] ∧ ¬ Types m.draft "Note" := by
  refine ⟨by decide +kernel, rfl, by decide +kernel, ?_⟩
  obtain ⟨m, hm⟩ : ∃ m, (generate earlyNoteOut scalarSettings).modules = [m] :=
    List.length_eq_one_iff.1 (by decide +kernel)
  have hrun : (generate earlyNoteOut scalarSettings).modules.map (fun m => (m.shared.scopes.table m.draft.scope, m.names,
      m.draft.typedefs.map (·.name))) =
      [([.defined ⟨"Note", some "definitions.ts", some (componentPlace "Anything"), false, none⟩,
        .defined ⟨"Anything", some "definitions.ts", none, false, none⟩], ["Note"], ["Anything"])] := by
    decide +kernel
  rw [hm] at hrun
  simp only [List.map_cons, List.map_nil, List.cons.injEq, and_true, Prod.mk.injEq] at hrun
  obtain ⟨htable, hnames, htypedefs⟩ := hrun
  refine ⟨m, _, hm, htable ▸ List.mem_cons_self, rfl, rfl, hnames, ?_⟩
  rintro ⟨t, ht, hname⟩
  have hmem := List.mem_map_of_mem (f := Emit.Typedef.name) ht
  rw [htypedefs, List.mem_singleton, hname] at hmem
  exact absurd hmem (by decide)

end Making
end TypedClient
