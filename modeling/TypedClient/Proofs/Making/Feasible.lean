import TypedClient.Proofs.Making.Printing
/-!
# Feasible — what a run asks of its document

A run that comes to its end shows what its document allows for: typedefs for the component schemas, classes that can be opened
beside them, and operations that can become methods and be printed (`feasible_of_ok`).  None of this depends on the order of
the operations.  The other way round, a run for such a document fails for nothing but names that are taken and values without
a literal (`failure_of_feasible`), and of these two as far as the rules of a claim leave room for them (`Proceeds.failure`).
-/
namespace TypedClient
namespace Making

open Codegen (Session Workspace)
open Linking (World)
open Operation (Spec collect classOf)
open Scope (Definition Symbol Table Tree)

variable {document : Node} {settings : Settings} {s s' s₀ : Session} {c : String} {shared : Workspace}

/-- The names that a module defines. -/
def definedNames (s : Session) : List String :=
  ((s.shared.scopes.table s.draft.scope).filterMap Symbol.definition?).map (·.localName)

theorem mem_definedNames {name : String} :
    name ∈ definedNames s ↔ ∃ d, .defined d ∈ s.shared.scopes.table s.draft.scope ∧ d.localName = name := by
  unfold definedNames
  rw [List.mem_map]
  constructor
  · rintro ⟨d, hd, hlocal⟩
    obtain ⟨symbol, hsymbol, hdefinition⟩ := List.mem_filterMap.1 hd
    cases symbol with
    | imported _ _ => cases hdefinition
    | defined e =>
      cases hdefinition
      exact ⟨d, hsymbol, hlocal⟩
  · rintro ⟨d, hd, hlocal⟩
    exact ⟨d, List.mem_filterMap.2 ⟨_, hd, rfl⟩, hlocal⟩

/-- **Whether a class can be opened**, after the component schemas: it is not called like the class that it extends, nor, in a
module that is called like theirs, like one of them. -/
def Opens (s₀ : Session) (c : String) : Prop :=
  c ≠ "Client" ∧ (c = "definitions" → c ∉ definedNames s₀)

/-- **Whether a document allows for a run**, with the session in which the typedefs of its component schemas are made. -/
structure Feasible (document : Node) (settings : Settings) (s₀ : Session) : Prop where
  isMap : document.isMap = true
  definitions : Generate.generateTypedefs (Generate.componentSchemas document) (World.definitions settings).session = .ok () s₀
  printed : ∃ file, s₀.file = .ok file
  classes : ∀ spec ∈ collect document, Opens s₀ (classOf document settings.defaultApiName spec)
  operations : ∀ spec ∈ collect document, spec.Generable ∧ spec.Readable

/-- What holds of the session in which the typedefs of the component schemas are made. -/
theorem Feasible.made (h : Feasible document settings s₀) :
    Fit s₀ ∧ Since (World.definitions settings).session s₀ ∧ Ready s₀.shared := by
  have hcomes := definitions_comes settings (Generate.componentSchemas document)
  rw [h.definitions] at hcomes
  obtain ⟨hfit, hsince, hready, -⟩ := hcomes
  exact ⟨hfit, hsince, hready⟩

/-! ## What a run shows -/

/-- Whether the root knows what the module of the component schemas defines. -/
def Published (document : Node) (settings : Settings) (shared : Workspace) : Prop :=
  ∀ s₀, Generate.generateTypedefs (Generate.componentSchemas document) (World.definitions settings).session = .ok () s₀ →
    ∀ name ∈ definedNames s₀, Tree.qualify "definitions" name ∈ (shared.scopes.table 0).map Symbol.localName

theorem published_definitions (document : Node) (settings : Settings) :
    Comes (fun _ s => Generate.generateTypedefs (Generate.componentSchemas document) (World.definitions settings).session =
        .ok () s ∧ Ready s.shared ∧ Published document settings s.shared) (fun _ _ => True)
      (Generate.generateTypedefs (Generate.componentSchemas document) (World.definitions settings).session) := by
  have h := definitions_comes settings (Generate.componentSchemas document)
  cases hr : Generate.generateTypedefs (Generate.componentSchemas document) (World.definitions settings).session with
  | error e s => trivial
  | ok _ s =>
    rw [hr] at h
    obtain ⟨hfit, hsince, hready, -⟩ := h
    refine ⟨rfl, hready, fun s' hs' name hname => ?_⟩
    cases hr.symm.trans hs'
    obtain ⟨d, hd, rfl⟩ := mem_definedNames.1 hname
    have hscope : (s.shared.scopes.get s.draft.scope).name = "definitions" := by
      rw [hsince.name, hsince.scope]
      rfl
    exact List.mem_map.2 ⟨_, hfit.sound.copied _ hfit.isModule.1 d hd, congrArg (Tree.qualify · d.localName) hscope⟩

/-- What is known of a class that has its module. -/
def Shown (document : Node) (settings : Settings) (group : String × List Spec) (m : Session) : Prop :=
  m.draft.apiName = some group.1 ∧
    (∀ s₀, Generate.generateTypedefs (Generate.componentSchemas document) (World.definitions settings).session = .ok () s₀ →
      Opens s₀ group.1) ∧
    ∀ spec ∈ group.2, spec.Generable ∧ ∃ method ∈ m.draft.methods, (∃ text, method.text = .ok text) ↔ spec.Readable

theorem shown_class (hready : Ready shared) (hpublished : Published document settings shared) (hname : Dotless c)
    (specs : List Spec) :
    Comes (fun _ s => Shown document settings (c, specs) s ∧ Ready s.shared ∧ Published document settings s.shared)
      (fun _ _ => True) (classWork c specs (begun settings c shared)) := by
  rcases hready.open settings hname specs with ⟨s, _, hwork, -⟩ | ⟨hclient, hfree, -⟩
  · rw [hwork]
    trivial
  refine (classWork_comes (fun done _ _ s => ∀ spec ∈ done, spec.Generable ∧
      ∃ method ∈ s.draft.methods, (∃ text, method.text = .ok text) ↔ spec.Readable)
    (fun done => rules_methods fun methods => ∀ spec ∈ done, spec.Generable ∧
      ∃ method ∈ methods, (∃ text, method.text = .ok text) ↔ spec.Readable)
    ?_ hready hname (fun _ _ => nofun) specs).mono fun _ s ⟨_, hsince, hready', hall⟩ =>
      ⟨⟨hsince.apiName, ?_, hall⟩, hready', ?_⟩
  · intro done spec s m types u u' _ hP _ hadd hrun
    cases hadd
    have hlast : m ∈ u.draft.methods ++ [m] := List.mem_append_right _ List.mem_cons_self
    intro spec' hspec
    rcases List.mem_append.1 hspec with hspec | hspec
    · obtain ⟨hgenerable, method, hmethod, htext⟩ := hP spec' hspec
      exact ⟨hgenerable, method, List.mem_append_left _ hmethod, htext⟩
    · rw [List.mem_singleton.1 hspec]
      exact ⟨Operation.generable_of_ok hrun, m, hlast, Operation.text_iff_readable hrun⟩
  · intro s₀ hs₀
    refine ⟨hclient, fun hdefinitions hmem => hfree ?_⟩
    have h := hpublished s₀ hs₀ c hmem
    rwa [← hdefinitions] at h
  · intro s₀ hs₀ name hmem
    obtain ⟨symbol, hsymbol, hlocal⟩ := List.mem_map.1 (hpublished s₀ hs₀ name hmem)
    exact List.mem_map.2 ⟨symbol, hsince.mem ((table_begun settings c shared 0).symm ▸ hsymbol), hlocal⟩

/-- The class of an operation has a module among the modules of the classes. -/
theorem mem_group {spec : Spec} (h : spec ∈ collect document) (default : String) :
    ∃ specs, (classOf document default spec, specs) ∈ Operation.group document default ∧ spec ∈ specs := by
  rw [Operation.group_eq]
  refine ⟨_, List.mem_map.2 ⟨_, mem_dropRepeats.2 (List.mem_map.2 ⟨spec, h, rfl⟩), rfl⟩, ?_⟩
  exact List.mem_filter.2 ⟨h, beq_iff_eq.2 rfl⟩

/-- An operation of a class belongs to the document, and to the class. -/
theorem of_mem_group {default : String} {specs : List Spec} (h : (c, specs) ∈ Operation.group document default) :
    c ∈ (collect document).map (classOf document default) ∧
      ∀ spec ∈ specs, spec ∈ collect document ∧ classOf document default spec = c := by
  rw [Operation.group_eq] at h
  obtain ⟨name, hname, heq⟩ := List.mem_map.1 h
  cases heq
  refine ⟨mem_dropRepeats.1 hname, fun spec hspec => ?_⟩
  obtain ⟨hspec, hclass⟩ := List.mem_filter.1 hspec
  exact ⟨hspec, beq_iff_eq.1 hclass⟩

/-- **A run that comes to its end shows that its document allows for it.** -/
theorem feasible_of_ok {values : List (String × Node)} (hs : Settings.ofValues values = .ok settings)
    (hok : (generate document settings).failure = none) : ∃ s₀, Feasible document settings s₀ := by
  have hname := Settings.dotless_defaultApiName hs
  obtain ⟨-, hwhole⟩ := generate_free settings document (Published document settings)
    (fun s => Generate.generateTypedefs (Generate.componentSchemas document) (World.definitions settings).session = .ok () s)
    (Shown document settings) (published_definitions document settings)
    fun className specs shared hmem hready hpublished =>
      shown_class hready hpublished (Operation.dotless_group hname _ hmem) specs
  obtain ⟨-, s₀, apis, file, fs, index, -, hdefinitions, hmade, hfile, hprinted, -⟩ := hwhole hok
  have hshown : ∀ spec ∈ collect document, Opens s₀ (classOf document settings.defaultApiName spec) ∧ spec.Generable ∧
      spec.Readable := by
    intro spec hspec
    obtain ⟨specs, hgroup, hmem⟩ := mem_group hspec settings.defaultApiName
    obtain ⟨m, hm, hnamed, hopens, hall⟩ := (exists_of_forall₂ hmade).1 _ hgroup
    obtain ⟨hgenerable, method, hmethod, hreadable⟩ := hall spec hmem
    obtain ⟨f, -, hf⟩ := (exists_of_forall₂ hprinted).1 m hm
    -- the file of the class has the texts of its methods
    obtain ⟨texts, -, htexts, -⟩ := showsClass_of_file hf hnamed
      (Operation.apiName_ne_empty (Settings.defaultApiName_ne_empty hs))
    exact ⟨hopens s₀ hdefinitions, hgenerable, hreadable.1 (Operation.exists_methodTexts_iff.1 ⟨texts, htexts⟩ _ hmethod)⟩
  refine ⟨s₀, ?_, hdefinitions, ⟨file, hfile⟩, fun spec hspec => (hshown spec hspec).1, fun spec hspec => (hshown spec hspec).2⟩
  cases hm : document.isMap with
  | true => rfl
  | false =>
    obtain ⟨p, hrun, -⟩ := Linking.generateAll_not_mapping hm settings
    rw [Linking.generate_of_error hrun] at hok
    cases hok

/-! ## What is left to fail -/

/-- The file of a class has a path. -/
theorem apiModule_ne_empty (settings : Settings) (c : String) : settings.apiModule c ≠ "" := by
  have happend : ∀ name : String, name ++ ".ts" ≠ "" := by
    intro name h
    have hlist := congrArg String.toList h
    rw [String.toList_append] at hlist
    cases (List.append_eq_nil_iff.1 hlist).2
  unfold Settings.apiModule
  split
  · exact happend _
  · exact happend _

variable {J : List String → Workspace → Prop} {Q : String → List String → Claim}
  {Asked : String → String → Option String → Prop} {Listed : Node → Prop} {Fails : GenerateError → Prop}

/-- **What is to be shown of the failures of a run**, class by class: `J` holds of what all modules share, with the classes
that are still to come, and `Q` of the module of a class. -/
structure Proceeds (document : Node) (settings : Settings) (s₀ : Session) (J : List String → Workspace → Prop)
    (Q : String → List String → Claim) (Asked : String → String → Option String → Prop) (Listed : Node → Prop)
    (Fails : GenerateError → Prop) : Prop where
  rules : ∀ c rest, Rules (Q c rest) (Asked c) Listed fun e _ => Fails e
  needs : ∀ spec ∈ collect document, ∀ schema name, spec.Needs schema name →
    Allowed (Asked (classOf document settings.defaultApiName spec)) Listed schema name
  first : J ((Operation.group document settings.defaultApiName).map (·.1)) s₀.shared
  clash : ∀ {c rest shared}, Dotless c → c ∉ rest → Opens s₀ c → Ready shared → J (c :: rest) shared →
    c = "Client" ∨ Tree.qualify c c ∈ (shared.scopes.table 0).map Symbol.localName → ∀ conflict, Fails (.conflict conflict)
  start : ∀ {c rest shared s}, c ∉ rest → J (c :: rest) shared → Opened settings c shared s → Q c rest [] [] s
  method : ∀ {c rest owed s s' m}, Q c rest [] owed s → Codegen.addMethod m s = .ok () s' → Q c rest [] [] s'
  done : ∀ {c rest s}, Fit s → Q c rest [] [] s → J rest s.shared

/-- What all modules share before the classes that are still to come. -/
structure Between (document : Node) (settings : Settings) (J : List String → Workspace → Prop) (rest : Grouped Spec)
    (shared : Workspace) : Prop where
  ready : Ready shared
  filed : Filed shared.scopes
  known : J (rest.map (·.1)) shared
  suffix : rest <:+ Operation.group document settings.defaultApiName

theorem nodup_classes (document : Node) (default : String) : ((Operation.group document default).map (·.1)).Nodup := by
  rw [Operation.group_eq, List.map_map]
  exact (List.map_id' _).symm ▸ nodup_dropRepeats _

/-- **The module of a class is made and printed**, if the rules leave no room for a failure. -/
theorem Proceeds.class (h : Proceeds document settings s₀ J Q Asked Listed Fails) (hf : Feasible document settings s₀)
    (hname : Dotless settings.defaultApiName) :
    ClassesMade settings (Between document settings J) (fun _ _ => True) Fails := by
  intro c specs rest shared hI
  obtain ⟨hready, hfiled, hJ, hsuffix⟩ := hI
  have hgroup := hsuffix.subset List.mem_cons_self
  have hdotless : Dotless c := Operation.dotless_group hname _ hgroup
  have hfresh : c ∉ rest.map (·.1) :=
    (List.nodup_cons.1 ((nodup_classes document settings.defaultApiName).sublist (hsuffix.sublist.map _))).1
  obtain ⟨hclass, hspecs⟩ := of_mem_group hgroup
  have hopens : Opens s₀ c := by
    obtain ⟨spec, hspec, rfl⟩ := List.mem_map.1 hclass
    exact hf.classes spec hspec
  -- the texts of the methods that are there, as far as the operations are readable
  have htexts : ∀ done : List Spec, FreeRules fun _ _ s => (∀ spec ∈ done, spec.Readable) →
      ∀ m ∈ s.draft.methods, ∃ text, m.text = .ok text :=
    fun done => rules_methods fun methods => (∀ spec ∈ done, spec.Readable) → ∀ m ∈ methods, ∃ text, m.text = .ok text
  have hends := classWork_ends settings specs (fun done => (htexts done).and (h.rules c (rest.map (·.1)))) ?_ hready
    hdotless (fun hwhy conflict _ => h.clash hdotless hfresh hopens hready hJ hwhy conflict) ?_ ?_ ?_
  · cases hr : classWork c specs (begun settings c shared) with
    | error e s =>
      rw [hr] at hends
      exact hends
    | ok _ s =>
      rw [hr] at hends
      obtain ⟨hfit, hsince, hready', hmethods, hQ⟩ := hends
      obtain ⟨added, hg, -⟩ := hsince.grown
      have hbegun : Filed (begun settings c shared).shared.scopes :=
        hfiled.addScope hready.sound (apiModule_ne_empty settings c)
      have hfiled' := hbegun.grown hg
      obtain ⟨file, hfile⟩ := hfiled'.exists_file hfit
        (hmethods fun spec hspec => (hf.operations spec (hspecs spec hspec).1).2)
      refine ⟨trivial, ⟨hready', hfiled', h.done hfit hQ, ?_⟩, fun x hx => nomatch hfile.symm.trans hx⟩
      exact (List.suffix_cons _ _).trans hsuffix
  · intro done spec s m types u u' _ ⟨hmethods, hQ⟩ _ hadd hrun
    have hQ' := h.method hQ hadd
    cases hadd
    refine ⟨fun hreadable method hmethod => ?_, hQ'⟩
    rcases List.mem_append.1 hmethod with hold | hnew
    · exact hmethods (fun spec' hspec => hreadable spec' (List.mem_append_left _ hspec)) method hold
    · rw [List.mem_singleton.1 hnew]
      exact (Operation.text_iff_readable hrun).2 (hreadable spec (List.mem_append_right _ List.mem_cons_self))
  · intro s hopened
    refine ⟨fun _ m hm => ?_, h.start hfresh hJ hopened⟩
    rw [hopened.draft] at hm
    cases hm
  · intro spec hspec schema name hneeds
    obtain ⟨hmem, hclass⟩ := hspecs spec hspec
    exact hclass ▸ h.needs spec hmem schema name hneeds
  · exact fun spec hspec hbad => absurd (hf.operations spec (hspecs spec hspec).1).1 hbad

/-- **A run for a document that allows for it fails only as the rules leave room for.** -/
theorem Proceeds.failure {values : List (String × Node)} (hs : Settings.ofValues values = .ok settings)
    (h : Proceeds document settings s₀ J Q Asked Listed Fails) (hf : Feasible document settings s₀) :
    ∀ e, (generate document settings).failure = some e → Fails e := by
  obtain ⟨hsince, hready⟩ := hf.made.2
  have hdef : DefinitionsMade document settings (Between document settings J) (fun _ => True) Fails := by
    unfold DefinitionsMade
    rw [hf.definitions]
    obtain ⟨added, hg, -⟩ := hsince.grown
    obtain ⟨file, hfile⟩ := hf.printed
    exact ⟨trivial, ⟨hready, (filed_definitions hs).grown hg, h.first, List.suffix_refl _⟩,
      fun x hx => nomatch hfile.symm.trans hx⟩
  refine (generate_comes hdef (h.class hf (Settings.dotless_defaultApiName hs)) (fun shared x hI hx => ?_) fun hm => ?_).2.2
  · obtain ⟨file, hfile⟩ := hI.filed.exists_indexFile hI.ready.sound settings.indexModule
    exact nomatch hfile.symm.trans hx
  · exact nomatch hf.isMap.symm.trans hm

/-- Whether a failure is one of two: that a name is taken, or that a value has no literal. -/
def Accidental : GenerateError → Prop
  | .conflict _ | .unwritable _ => True
  | _ => False

/-- **A run for a document that allows for it fails for nothing else** than names that are taken and values without a
literal. -/
theorem failure_of_feasible {values : List (String × Node)} (hs : Settings.ofValues values = .ok settings)
    (hf : Feasible document settings s₀) : ∀ e, (generate document settings).failure = some e → Accidental e := by
  have hproceeds : Proceeds document settings s₀ (fun _ _ => True) (fun _ _ _ _ _ => True)
      (fun _ name _ => Dotless name) (fun _ => True) Accidental :=
    { rules := fun _ _ =>
        { dotless := id
          mono := fun _ _ => trivial
          warn := fun _ _ _ => trivial
          enter := fun _ _ _ _ _ => trivial
          clash := fun _ _ _ _ hs => by
            obtain ⟨t, c, -, -, rfl⟩ := Codegen.define_eq_error hs
            trivial
          use := fun _ _ _ _ => trivial
          finish := fun _ _ => trivial
          literal := fun _ _ _ => trivial }
      needs := fun _ _ _ _ => allowed_of_needs
      first := trivial
      clash := fun _ _ _ _ _ _ _ => trivial
      start := fun _ _ _ => trivial
      method := fun _ _ => trivial
      done := fun _ _ => trivial }
  exact hproceeds.failure hs hf

end Making
end TypedClient
