import TypedClient.Proofs.Linking.References
import TypedClient.Proofs.Making.Methods
/-!
# Runs — from the modules to a whole run

A run makes the module of the component schemas and one module for every API class, each from an empty draft on
(`generateModules_eq`, `generateApi_eq`).  What is shown of one module, in terms of what all modules share before and after,
carries over to all modules of the run, whether it comes to its end or not (`generate_comes`).
-/
namespace TypedClient
namespace Making

open Codegen (Session Draft Workspace Gen)
open Emit (File Method)
open Generate (Progress)
open Linking (World Progress.start Progress.definitions)
open Operation (Spec)
open Scope (Definition Symbol Table Tree)

variable {settings : Settings} {shared : Workspace} {s s' s₀ : Session} {className : String} {specs : List Spec}

/-! ## One module -/

/-- **What stays of a session while its module is made**: all symbols, and what a module is from its beginning.  Only the
module's own table and the root get new symbols. -/
structure Since (s₀ s : Session) : Prop where
  grown : ∃ added, Tree.Grown s₀.shared.scopes s.shared.scopes added ∧ ∀ home ≠ 0, home ≠ s₀.draft.scope → added home = []
  scope : s.draft.scope = s₀.draft.scope
  filename : s.draft.filename = s₀.draft.filename
  apiName : s.draft.apiName = s₀.draft.apiName
  aliasScalars : s.draft.aliasScalars = s₀.draft.aliasScalars

theorem Since.refl (s : Session) : Since s s :=
  ⟨⟨_, Tree.Grown.refl _, fun _ _ _ => rfl⟩, rfl, rfl, rfl, rfl⟩

theorem Since.trans (h : Since s₀ s) (h' : Since s s') : Since s₀ s' := by
  obtain ⟨added, hg, hadded⟩ := h.grown
  obtain ⟨more, hg', hmore⟩ := h'.grown
  refine ⟨⟨_, hg.trans hg', fun home h0 hne => ?_⟩, h'.scope.trans h.scope, h'.filename.trans h.filename,
    h'.apiName.trans h.apiName, h'.aliasScalars.trans h.aliasScalars⟩
  rw [hadded home h0 hne, hmore home h0 (h.scope ▸ hne), List.append_nil]

/-- A session with more symbols in its own table and the root. -/
theorem Since.withScopes {t : Tree} {added : Scope.Id → Table} (hg : Tree.Grown s.shared.scopes t added)
    (hadded : ∀ home ≠ 0, home ≠ s.draft.scope → added home = []) : Since s (s.withScopes t) :=
  ⟨⟨added, hg, hadded⟩, rfl, rfl, rfl, rfl⟩

/-- Symbols of another module stay as they are. -/
theorem Since.table (h : Since s₀ s) {home : Scope.Id} (h0 : home ≠ 0) (hne : home ≠ s₀.draft.scope) :
    s.shared.scopes.table home = s₀.shared.scopes.table home := by
  obtain ⟨added, hg, hadded⟩ := h.grown
  rw [hg.table, hadded home h0 hne, List.append_nil]

theorem Since.mem (h : Since s₀ s) {home : Scope.Id} {symbol : Symbol} (hs : symbol ∈ s₀.shared.scopes.table home) :
    symbol ∈ s.shared.scopes.table home := by
  obtain ⟨added, hg, -⟩ := h.grown
  exact hg.mem hs

theorem Since.name (h : Since s₀ s) (home : Scope.Id) :
    (s.shared.scopes.get home).name = (s₀.shared.scopes.get home).name := by
  obtain ⟨added, hg, -⟩ := h.grown
  exact hg.name home

theorem Fit.since_define {name : String} {place : Option String} {isPublic : Bool} {d : Definition} (h : Fit s)
    (hs : Codegen.define name place isPublic s = .ok d s') : Since s s' := by
  obtain ⟨t, ht, rfl⟩ := Codegen.define_eq_ok hs
  obtain ⟨-, -, -, hg⟩ := h.sound.define_ok h.isModule ht
  refine Since.withScopes hg fun home h0 hne => ?_
  unfold Tree.definedSymbols
  rw [if_neg hne, if_neg h0]

theorem Fit.since_nameOf {place name : String} {d : Definition} (h : Fit s) (hp : s.definitionAt? place = some d)
    (hs : Codegen.nameOf d s = .ok name s') : Since s s' := by
  obtain ⟨t, home, e, -, -, himports, -, hs'⟩ := h.use hp hs
  obtain ⟨added, hg, hadded⟩ := himports.grown
  have hsince : Since s (s.withScopes t) := Since.withScopes hg fun home _ hne =>
    List.eq_nil_iff_forall_not_mem.2 fun symbol hsymbol => hne (hadded home symbol hsymbol).1
  rcases hs' with rfl | ⟨q, rfl⟩
  · exact hsince
  · exact ⟨hsince.grown, rfl, rfl, rfl, rfl⟩

theorem since_warn {message : String} (hs : Codegen.warn message s = .ok () s') : Since s s' := by
  cases hs
  exact ⟨⟨_, Tree.Grown.refl _, fun _ _ _ => rfl⟩, rfl, rfl, rfl, rfl⟩

theorem since_addTypedef {t : Emit.Typedef} (hs : Codegen.addTypedef t s = .ok () s') : Since s s' := by
  cases hs
  exact ⟨⟨_, Tree.Grown.refl _, fun _ _ _ => rfl⟩, rfl, rfl, rfl, rfl⟩

theorem since_addMethod {m : Method} (hs : Codegen.addMethod m s = .ok () s') : Since s s' := by
  cases hs
  exact ⟨⟨_, Tree.Grown.refl _, fun _ _ _ => rfl⟩, rfl, rfl, rfl, rfl⟩

/-- **What stays with the symbols is kept by all that is done between two methods.** -/
theorem rules_of_since {q : Session → Prop} (h : ∀ {s s'}, q s → Since s s' → q s') : FreeRules fun _ _ s => q s where
  dotless h := h
  mono h _ := h
  warn _ hq hs := h hq (since_warn hs)
  enter hfit hq _ _ hs := h hq (hfit.since_define hs)
  clash _ _ _ _ _ := trivial
  use hfit hq hp hs := h hq (hfit.since_nameOf hp hs)
  finish hq hs := h hq (since_addTypedef hs)
  literal _ _ _ := trivial

theorem rules_since (s₀ : Session) : FreeRules fun _ _ s => Since s₀ s :=
  rules_of_since fun h h' => h.trans h'

/-- **Only a method adds a method.** -/
theorem rules_methods (q : List Method → Prop) : FreeRules fun _ _ s => q s.draft.methods where
  dotless h := h
  mono h _ := h
  warn message h hs := by
    cases hs
    exact h
  enter hfit h _ _ hs := by
    obtain ⟨t, ht, rfl⟩ := Codegen.define_eq_ok hs
    exact h
  clash _ _ _ _ _ := trivial
  use hfit h hp hs := by
    obtain ⟨t, -, -, -, -, -, -, rfl | ⟨q, rfl⟩⟩ := hfit.use hp hs
    · exact h
    · exact h
  finish h hs := by
    cases hs
    exact h
  literal _ _ _ := trivial

/-! ## The module of a class -/

/-- The session in which the module of a class is begun. -/
def begun (settings : Settings) (className : String) (shared : Workspace) : Session :=
  { shared := { shared with scopes := (shared.scopes.addScope 0 className (some (settings.apiModule className))).1 }
    draft := Generate.emptyDraft settings (settings.apiModule className) shared.scopes.scopes.length (some className) }

/-- What is done for a class: it extends the client class, is public, and gets its methods. -/
def classWork (className : String) (specs : List Spec) : Gen Unit := do
  let _ ← Codegen.importSymbol Scope.clientSymbol (some "Client")
  let _ ← Codegen.define className none true
  Generate.generateMethods specs

/-- **What all modules share between two of them**: sound scopes, with the client class in the root. -/
structure Ready (shared : Workspace) : Prop where
  sound : shared.scopes.Sound
  client : ∃ d, .defined d ∈ shared.scopes.table 0 ∧ d.localName = Scope.clientSymbol

theorem Ready.since (h : Ready s₀.shared) (hfit : Fit s) (hsince : Since s₀ s) : Ready s.shared := by
  obtain ⟨d, hd, hlocal⟩ := h.client
  exact ⟨hfit.sound, d, hsince.mem hd, hlocal⟩

theorem Ready.fit_begun (h : Ready shared) (settings : Settings) (className : String) :
    Fit (begun settings className shared) := by
  refine ⟨h.sound.addScope className _, h.sound.pos.ne', ?_⟩
  change shared.scopes.scopes.length < (shared.scopes.addScope 0 className _).1.scopes.length
  rw [Tree.length_addScope]
  exact Nat.lt_succ_self _

theorem Ready.ready_begun (h : Ready shared) (settings : Settings) (className : String) :
    Ready (begun settings className shared).shared := by
  obtain ⟨d, hd, hlocal⟩ := h.client
  refine ⟨h.sound.addScope className _, d, ?_, hlocal⟩
  change _ ∈ (shared.scopes.addScope 0 className _).1.table 0
  rw [Tree.table_addScope]
  exact hd

theorem get_begun (settings : Settings) (className : String) (shared : Workspace) (id : Scope.Id) :
    (begun settings className shared).shared.scopes.get id = if id = (begun settings className shared).draft.scope
      then ⟨className, some (settings.apiModule className), shared.scopes.outwards 0, []⟩ else shared.scopes.get id :=
  Tree.get_addScope _ _ _ _ _

theorem table_begun (settings : Settings) (className : String) (shared : Workspace) (home : Scope.Id) :
    (begun settings className shared).shared.scopes.table home = shared.scopes.table home :=
  Tree.table_addScope _ _ _ _ _

/-- A module is begun with an empty table. -/
theorem table_begun_own (settings : Settings) (className : String) (shared : Workspace) :
    (begun settings className shared).shared.scopes.table (begun settings className shared).draft.scope = [] := by
  rw [table_begun]
  unfold Tree.table Scope.Tree.get
  change (shared.scopes.scopes[shared.scopes.scopes.length]?.getD _).table = []
  rw [List.getElem?_eq_none (Nat.le_refl _)]
  rfl

/-- **The session in which a class extends the client class**: the table holds the import of that, and nothing else. -/
structure Extending (settings : Settings) (className : String) (shared : Workspace) (s : Session) : Prop where
  fit : Fit s
  since : Since (begun settings className shared) s
  draft : s.draft = (begun settings className shared).draft
  warnings : s.shared.warnings = shared.warnings
  bodiless : s.shared.bodiless = shared.bodiless
  name : (s.shared.scopes.get s.draft.scope).name = className
  table : s.shared.scopes.table s.draft.scope = [.imported "Client" Scope.clientSymbol]
  root : s.shared.scopes.table 0 = shared.scopes.table 0

/-- **The session in which the methods of a class are begun**: the table holds the import of the client class, and the class. -/
structure Opened (settings : Settings) (className : String) (shared : Workspace) (s : Session) : Prop where
  fit : Fit s
  since : Since (begun settings className shared) s
  draft : s.draft = (begun settings className shared).draft
  warnings : s.shared.warnings = shared.warnings
  bodiless : s.shared.bodiless = shared.bodiless
  table : ∃ d, s.shared.scopes.table s.draft.scope = [.imported "Client" Scope.clientSymbol, .defined d] ∧
    d.localName = className ∧ d.isPublic = true ∧ d.specPath = none

/-- The client class is imported into an empty table. -/
theorem Ready.import_client (h : Ready shared) (settings : Settings) (className : String) :
    ∃ s, Codegen.importSymbol Scope.clientSymbol (some "Client") (begun settings className shared) = .ok "Client" s ∧
      Extending settings className shared s := by
  have hown := table_begun_own settings className shared
  have hroot := table_begun settings className shared 0
  have hfit := h.fit_begun settings className
  have hready := h.ready_begun settings className
  have hname : ((begun settings className shared).shared.scopes.get (begun settings className shared).draft.scope).name =
      className := by
    rw [get_begun, if_pos rfl]
  have hwarnings : (begun settings className shared).shared.warnings = shared.warnings := rfl
  have hbodiless : (begun settings className shared).shared.bodiless = shared.bodiless := rfl
  generalize hb : begun settings className shared = b at hown hroot hfit hready hname hwarnings hbodiless ⊢
  have himport : b.shared.scopes.importSymbol b.draft.scope Scope.clientSymbol (some "Client") =
      (b.shared.scopes.enter b.draft.scope (.imported "Client" Scope.clientSymbol), .ok "Client") := by
    unfold Tree.importSymbol Tree.taken
    rw [hown]
    rfl
  obtain ⟨d, hd, hlocal⟩ := hready.client
  have hsound : (b.shared.scopes.enter b.draft.scope (.imported "Client" Scope.clientSymbol)).Sound := by
    rw [← hlocal] at himport
    have himports := hfit.sound.importSymbol_wanted hfit.isModule (by decide) hd himport
    exact hlocal ▸ himports.sound
  have hg := Tree.grown_enter hfit.isModule.2 (Symbol.imported "Client" Scope.clientSymbol)
  generalize b.shared.scopes.enter b.draft.scope (.imported "Client" Scope.clientSymbol) = t at himport hsound hg
  have hsince : Since b (b.withScopes t) := Since.withScopes hg fun home _ hne => if_neg hne
  have htable : t.table b.draft.scope = [.imported "Client" Scope.clientSymbol] := by
    rw [hg.table, hown, if_pos rfl]
    rfl
  have hkept : t.table 0 = shared.scopes.table 0 := by
    rw [hg.table, hroot, if_neg (Ne.symm hfit.isModule.1), List.append_nil]
  refine ⟨b.withScopes t, ?_, hfit.of_grown hsound hg rfl, hb ▸ hsince, hb ▸ rfl, hwarnings, hbodiless,
    (hg.name _).trans hname, htable, hkept⟩
  rw [Codegen.importSymbol_eq, himport]

/-- The class itself is defined beside the import. -/
theorem Extending.define (h : Extending settings className shared s) (hname : Dotless className) {d : Definition}
    (hs : Codegen.define className none true s = .ok d s') : Opened settings className shared s' := by
  have hfit := h.fit.define hname rfl hs
  have hsince := h.since.trans (h.fit.since_define hs)
  obtain ⟨t, rfl, hlocal, hplace, hpublic, htable, -⟩ := h.fit.entered hs
  exact ⟨hfit, hsince, h.draft, h.warnings, h.bodiless, d, htable.trans (by rw [h.table]; rfl), hlocal, hpublic, hplace⟩

/-- **How the module of a class is opened**: the class may meet its own name in the module, or its qualified name in the
root; otherwise the methods are made. -/
theorem Ready.open (h : Ready shared) (settings : Settings) (hname : Dotless className) (specs : List Spec) :
    (∃ s c, classWork className specs (begun settings className shared) = .error (.conflict c) s ∧
      (className = "Client" ∨ Tree.qualify className className ∈ (shared.scopes.table 0).map Symbol.localName)) ∨
    (className ≠ "Client" ∧ Tree.qualify className className ∉ (shared.scopes.table 0).map Symbol.localName ∧
      ∃ s, Opened settings className shared s ∧
        classWork className specs (begun settings className shared) = Generate.generateMethods specs s) := by
  obtain ⟨s, himport, hextending⟩ := h.import_client settings className
  have hwork : classWork className specs (begun settings className shared) = (do
      let _ ← Codegen.define className none true
      Generate.generateMethods specs : Gen Unit) s := bind_of_eq_ok himport
  have hcases := hextending.fit.define_cases className none true
  rw [hextending.table, hextending.name, hextending.root, List.map_singleton, List.mem_singleton] at hcases
  rcases hcases with ⟨c, u, hd, hwhy⟩ | ⟨hfree, hrootFree, d, u, hd⟩
  · refine .inl ⟨u, c, ?_, hwhy⟩
    rw [hwork]
    change EStateM.bind _ _ _ = _
    unfold EStateM.bind
    rw [hd]
  · exact .inr ⟨hfree, hrootFree, u, hextending.define hname hd, hwork.trans (bind_of_eq_ok hd)⟩

/-- What is printed of a module. -/
def printedTo (s : Session) (p : Progress) : EStateM.Result GenerateError Progress Unit :=
  match s.file with
  | .ok file => .ok () { p with modules := p.modules ++ [s], files := p.files ++ [file] }
  | .error x => .error (.print x) p

theorem onDraft_eq_ok {α : Type} {draft draft' : Draft} {work : Gen α} {p p' : Progress} {a : α}
    (h : Generate.onDraft draft work p = .ok (a, draft') p') :
    ∃ s, work ⟨p.shared, draft⟩ = .ok a s ∧ draft' = s.draft ∧ p' = { p with shared := s.shared } := by
  unfold Generate.onDraft at h
  cases hw : work ⟨p.shared, draft⟩ with
  | ok b s =>
    rw [hw] at h
    cases h
    exact ⟨s, rfl, rfl, rfl⟩
  | error e s =>
    rw [hw] at h
    cases h

theorem onDraft_eq_error {α : Type} {draft : Draft} {work : Gen α} {p p' : Progress} {e : GenerateError}
    (h : Generate.onDraft draft work p = .error e p') :
    ∃ s, work ⟨p.shared, draft⟩ = .error e s ∧ p' = { p with shared := s.shared } := by
  unfold Generate.onDraft at h
  cases hw : work ⟨p.shared, draft⟩ with
  | ok b s =>
    rw [hw] at h
    cases h
  | error e' s =>
    rw [hw] at h
    cases h
    exact ⟨s, rfl, rfl⟩

/-- **How the module of a class comes about.** -/
theorem generateApi_eq (settings : Settings) (className : String) (specs : List Spec) (p : Progress) :
    Generate.generateApi settings className specs p =
      match classWork className specs (begun settings className p.shared) with
      | .ok _ s => printedTo s { p with shared := s.shared, apiNames := p.apiNames ++ [className] }
      | .error e s => .error e { p with shared := s.shared } := by
  have hscope : Generate.newScope className (settings.apiModule className) p =
      .ok p.shared.scopes.scopes.length { p with shared := (begun settings className p.shared).shared } := rfl
  unfold Generate.generateApi
  rw [bind_of_eq_ok hscope]
  refine bind_cases (p := fun r => r = _) ?_ ?_
  · rintro ⟨a, draft⟩ u hr
    obtain ⟨s, hs, rfl, rfl⟩ := onDraft_eq_ok hr
    rw [show classWork className specs (begun settings className p.shared) = .ok a s from hs]
    unfold Generate.printDraft printedTo
    rfl
  · intro e u hr
    obtain ⟨s, hs, rfl⟩ := onDraft_eq_error hr
    rw [show classWork className specs (begun settings className p.shared) = .error e s from hs]

/-- **How the modules of a document come about.** -/
theorem generateModules_eq (document : Node) (settings : Settings) (draft : Draft) (schemas : List (String × Node))
    (p : Progress) : Generate.generateModules document settings draft schemas p =
      match Generate.generateTypedefs schemas ⟨p.shared, draft⟩ with
      | .error e s => .error e { p with shared := s.shared }
      | .ok _ s =>
        match printedTo s { p with shared := s.shared } with
        | .error e p' => .error e p'
        | .ok _ p' =>
          match Generate.generateApis settings (Operation.group document settings.defaultApiName) p' with
          | .error e p' => .error e p'
          | .ok _ p' =>
            match Emit.indexFile p'.shared.scopes 0 settings.indexModule with
            | .ok file => .ok () { p' with files := p'.files ++ [file] }
            | .error x => .error (.print x) p' := by
  unfold Generate.generateModules
  refine bind_cases (p := fun r => r = _) ?_ ?_
  · rintro ⟨a, definitions⟩ u hr
    obtain ⟨s, hs, rfl, rfl⟩ := onDraft_eq_ok hr
    rw [hs]
    have hprint : Generate.printDraft s.draft { p with shared := s.shared } = printedTo s { p with shared := s.shared } := by
      unfold Generate.printDraft printedTo
      rfl
    refine bind_cases (p := fun r => r = _) ?_ ?_
    · intro _ p₁ hp₁
      rw [hprint] at hp₁
      simp only [hp₁]
      refine bind_cases (p := fun r => r = _) ?_ ?_
      · intro _ p₂ hp₂
        simp only [hp₂]
        have hget : (get : Generate.Run Progress) p₂ = .ok p₂ p₂ := rfl
        rw [bind_of_eq_ok hget]
        cases Emit.indexFile p₂.shared.scopes 0 settings.indexModule with
        | ok file => rfl
        | error x => rfl
      · intro e p₂ hp₂
        simp only [hp₂]
    · intro e p₁ hp₁
      rw [hprint] at hp₁
      simp only [hp₁]
  · intro e u hr
    obtain ⟨s, hs, rfl⟩ := onDraft_eq_error hr
    rw [hs]

/-! ## All modules -/

/-- **What a run adds**: modules, and a file for each. -/
structure Added (p p' : Progress) (ms : List Session) (fs : List File) : Prop where
  modules : p'.modules = p.modules ++ ms
  files : p'.files = p.files ++ fs
  printed : List.Forall₂ (fun (m : Session) file => m.file = .ok file) ms fs

theorem Added.none {p p' : Progress} (hmodules : p'.modules = p.modules) (hfiles : p'.files = p.files) :
    Added p p' [] [] :=
  ⟨by rw [hmodules, List.append_nil], by rw [hfiles, List.append_nil], .nil⟩

theorem Added.trans {p p' p'' : Progress} {ms ms' : List Session} {fs fs' : List File} (h : Added p p' ms fs)
    (h' : Added p' p'' ms' fs') : Added p p'' (ms ++ ms') (fs ++ fs') :=
  ⟨by rw [h'.modules, h.modules, List.append_assoc], by rw [h'.files, h.files, List.append_assoc],
    List.rel_append h.printed h'.printed⟩

theorem printedTo_comes (s : Session) (p : Progress) :
    Comes (fun _ p' => p'.shared = p.shared ∧ p'.apiNames = p.apiNames ∧ ∃ file, Added p p' [s] [file])
      (fun e p' => p' = p ∧ ∃ x, e = .print x ∧ s.file = .error x) (printedTo s p) := by
  unfold printedTo
  cases hf : s.file with
  | ok file => exact ⟨rfl, rfl, file, rfl, rfl, .cons hf .nil⟩
  | error x => exact ⟨rfl, x, rfl, rfl⟩

variable {I : Grouped Spec → Workspace → Prop} {Made : String × List Spec → Session → Prop} {Fails : GenerateError → Prop}

/-- **What is to be shown of the classes**, one at a time: how the module of a class is made, and what all modules share
before the classes that are left then. -/
def ClassesMade (settings : Settings) (I : Grouped Spec → Workspace → Prop) (Made : String × List Spec → Session → Prop)
    (Fails : GenerateError → Prop) : Prop :=
  ∀ className specs rest shared, I ((className, specs) :: rest) shared →
    Comes (fun _ s => Made (className, specs) s ∧ I rest s.shared ∧ ∀ x, s.file = .error x → Fails (.print x))
      (fun e _ => Fails e) (classWork className specs (begun settings className shared))

theorem generateApi_comes (h : ClassesMade settings I Made Fails) {rest : Grouped Spec} {p : Progress}
    (hI : I ((className, specs) :: rest) p.shared) :
    Comes (fun _ p' => I rest p'.shared ∧ p'.apiNames = p.apiNames ++ [className] ∧
        ∃ m file, Added p p' [m] [file] ∧ Made (className, specs) m)
      (fun e p' => Fails e ∧ Added p p' [] []) (Generate.generateApi settings className specs p) := by
  have hclass := h className specs rest p.shared hI
  rw [generateApi_eq]
  cases hw : classWork className specs (begun settings className p.shared) with
  | error e s =>
    rw [hw] at hclass
    exact ⟨hclass, .none rfl rfl⟩
  | ok a s =>
    rw [hw] at hclass
    obtain ⟨hmade, hI', hprint⟩ := hclass
    dsimp only
    have hcomes := printedTo_comes s { p with shared := s.shared, apiNames := p.apiNames ++ [className] }
    cases hr : printedTo s { p with shared := s.shared, apiNames := p.apiNames ++ [className] } with
    | ok _ p' =>
      rw [hr] at hcomes
      obtain ⟨hshared, hnames, file, hadded⟩ := hcomes
      exact ⟨hshared ▸ hI', hnames, s, file, ⟨hadded.modules, hadded.files, hadded.printed⟩, hmade⟩
    | error e p' =>
      rw [hr] at hcomes
      obtain ⟨rfl, x, rfl, hx⟩ := hcomes
      exact ⟨hprint x hx, .none rfl rfl⟩

/-- **All classes get their modules**, one after another, or the run ends with the modules before the failure. -/
theorem generateApis_comes (h : ClassesMade settings I Made Fails) : ∀ (groups : Grouped Spec) (p : Progress),
    I groups p.shared → Comes
      (fun _ p' => I [] p'.shared ∧ p'.apiNames = p.apiNames ++ groups.map (·.1) ∧
        ∃ ms fs, Added p p' ms fs ∧ List.Forall₂ Made groups ms)
      (fun e p' => Fails e ∧ ∃ ms fs, Added p p' ms fs ∧ ∀ m ∈ ms, ∃ group ∈ groups, Made group m)
      (Generate.generateApis settings groups p)
  | [], p, hI => ⟨hI, (List.append_nil _).symm, [], [], .none rfl rfl, .nil⟩
  | (className, specs) :: rest, p, hI => by
    have hclass := generateApi_comes h hI
    unfold Generate.generateApis
    refine bind_cases (fun _ p₁ hr => ?_) fun e p₁ hr => ?_
    · rw [hr] at hclass
      obtain ⟨hI', hnames, m, file, hadded, hmade⟩ := hclass
      have hrest := generateApis_comes h rest p₁ hI'
      cases hr' : Generate.generateApis settings rest p₁ with
      | ok _ p' =>
        rw [hr'] at hrest
        obtain ⟨hI'', hnames', ms, fs, hadded', hall⟩ := hrest
        refine ⟨hI'', ?_, _, _, hadded.trans hadded', .cons hmade hall⟩
        rw [hnames', hnames, List.map_cons, List.append_assoc]
        rfl
      | error e p' =>
        rw [hr'] at hrest
        obtain ⟨hfails, ms, fs, hadded', hall⟩ := hrest
        refine ⟨hfails, _, _, hadded.trans hadded', fun m' hm' => ?_⟩
        rcases List.mem_cons.1 hm' with rfl | hm'
        · exact ⟨_, List.mem_cons_self, hmade⟩
        · obtain ⟨group, hgroup, hmade'⟩ := hall m' hm'
          exact ⟨group, List.mem_cons_of_mem _ hgroup, hmade'⟩
    · rw [hr] at hclass
      exact ⟨hclass.1, [], [], hclass.2, fun m hm => absurd hm List.not_mem_nil⟩

/-! ## A whole run -/

/-- **What is to be shown of the module of the component schemas**: how it is made, and what all modules share before the
classes. -/
def DefinitionsMade (document : Node) (settings : Settings) (I : Grouped Spec → Workspace → Prop) (Def : Session → Prop)
    (Fails : GenerateError → Prop) : Prop :=
  Comes (fun _ s => Def s ∧ I (Operation.group document settings.defaultApiName) s.shared ∧
      ∀ x, s.file = .error x → Fails (.print x)) (fun e _ => Fails e)
    (Generate.generateTypedefs (Generate.componentSchemas document) (World.definitions settings).session)

/-- The files of a run before those of its modules. -/
def clientFiles (settings : Settings) : List File :=
  if settings.emitRuntimeClient then [⟨settings.clientModule, Emit.clientText⟩] else []

/-- **What a run has made when it comes to its end.** -/
structure Whole (document : Node) (settings : Settings) (Def : Session → Prop) (Made : String × List Spec → Session → Prop)
    (modules : List Session) (files : List File) (apiNames : List String) : Prop where
  apiNames : apiNames = (Operation.group document settings.defaultApiName).map (·.1)
  modules : ∃ definitions apis file fs index, modules = definitions :: apis ∧ Def definitions ∧
    List.Forall₂ Made (Operation.group document settings.defaultApiName) apis ∧ definitions.file = .ok file ∧
    List.Forall₂ (fun (m : Session) file => m.file = .ok file) apis fs ∧
    files = clientFiles settings ++ file :: fs ++ [index] ∧ index.path = settings.indexModule

/-- **What is known of a printed module**: it is the one of the component schemas, or that of a class, and it has its
file. -/
def MadeOne (document : Node) (settings : Settings) (Def : Session → Prop)
    (Made : String × List Spec → Session → Prop) (files : List File) (i : Nat) (m : Session) : Prop :=
  (i = 0 ∧ Def m ∨ i ≠ 0 ∧ ∃ group ∈ Operation.group document settings.defaultApiName, Made group m) ∧
    ∃ file ∈ files, m.file = .ok file

/-- The modules printed by a run are known one by one. -/
theorem madeOne_of_cons {document : Node} {Def : Session → Prop} {definitions : Session} {apis : List Session}
    {file : File} {fs files : List File} (hdef : Def definitions) (hfile : definitions.file = .ok file)
    (hprinted : List.Forall₂ (fun (m : Session) file => m.file = .ok file) apis fs) (hfiles : file :: fs ⊆ files)
    (hmade : ∀ m ∈ apis, ∃ group ∈ Operation.group document settings.defaultApiName, Made group m) {i : Nat} {m : Session}
    (hm : (definitions :: apis)[i]? = some m) : MadeOne document settings Def Made files i m := by
  cases i with
  | zero =>
    cases hm
    exact ⟨.inl ⟨rfl, hdef⟩, file, hfiles List.mem_cons_self, hfile⟩
  | succ i =>
    have hmem : m ∈ apis := List.mem_of_getElem? hm
    obtain ⟨f, hf, hmf⟩ := (exists_of_forall₂ hprinted).1 m hmem
    exact ⟨.inr ⟨Nat.succ_ne_zero i, hmade m hmem⟩, f, hfiles (List.mem_cons_of_mem _ hf), hmf⟩

theorem Whole.madeOne {document : Node} {Def : Session → Prop} {modules : List Session} {files : List File}
    {apiNames : List String} (h : Whole document settings Def Made modules files apiNames) {i : Nat} {m : Session}
    (hm : modules[i]? = some m) : MadeOne document settings Def Made files i m := by
  obtain ⟨definitions, apis, file, fs, index, rfl, hdef, hmade, hfile, hprinted, rfl, -⟩ := h.modules
  refine madeOne_of_cons hdef hfile hprinted ?_ (exists_of_forall₂ hmade).2 hm
  exact List.subset_append_of_subset_left _ (List.subset_append_right _ _)

theorem indexFile_path {tree : Tree} {id : Scope.Id} {filename : String} {file : File}
    (h : Emit.indexFile tree id filename = .ok file) : file.path = filename := by
  unfold Emit.indexFile at h
  cases he : Emit.indexExports tree id filename with
  | error x =>
    rw [he] at h
    cases h
  | ok exports =>
    rw [he] at h
    cases h
    rfl

/-- **What is shown of each module holds of all that a run makes** after the client module. -/
theorem generateModules_comes {document : Node} {Def : Session → Prop} (hdef : DefinitionsMade document settings I Def Fails)
    (hclasses : ClassesMade settings I Made Fails)
    (hindex : ∀ shared x, I [] shared → Emit.indexFile shared.scopes 0 settings.indexModule = .error x → Fails (.print x)) :
    Comes (fun _ p' => Whole document settings Def Made p'.modules p'.files p'.apiNames)
      (fun e p' => Fails e ∧ ∀ i m, p'.modules[i]? = some m → MadeOne document settings Def Made p'.files i m)
      (Generate.generateModules document settings (World.definitions settings).session.draft
        (Generate.componentSchemas document) (Progress.definitions settings)) := by
  have hsession : (⟨(Progress.definitions settings).shared, (World.definitions settings).session.draft⟩ : Session) =
      (World.definitions settings).session := rfl
  rw [generateModules_eq, hsession]
  unfold DefinitionsMade at hdef
  cases hw : Generate.generateTypedefs (Generate.componentSchemas document) (World.definitions settings).session with
  | error e s =>
    rw [hw] at hdef
    exact ⟨hdef, nofun⟩
  | ok a s =>
    rw [hw] at hdef
    obtain ⟨hmade, hI, hprint⟩ := hdef
    dsimp only
    have hcomes := printedTo_comes s { Progress.definitions settings with shared := s.shared }
    cases hr : printedTo s { Progress.definitions settings with shared := s.shared } with
    | error e p₁ =>
      rw [hr] at hcomes
      obtain ⟨rfl, x, rfl, hx⟩ := hcomes
      exact ⟨hprint x hx, nofun⟩
    | ok _ p₁ =>
      rw [hr] at hcomes
      obtain ⟨hshared, hnames, file, hadded⟩ := hcomes
      have hfile : s.file = .ok file := (List.forall₂_cons.1 hadded.printed).1
      have hready : I (Operation.group document settings.defaultApiName) p₁.shared := by
        rw [hshared]
        exact hI
      have hone : ∀ {p₂ ms fs}, Added p₁ p₂ ms fs →
          (∀ m ∈ ms, ∃ group ∈ Operation.group document settings.defaultApiName, Made group m) →
          ∀ i m, p₂.modules[i]? = some m → MadeOne document settings Def Made p₂.files i m := by
        intro p₂ ms fs hadded' hall i m hm
        have htotal := hadded.trans hadded'
        rw [htotal.modules] at hm
        refine madeOne_of_cons hmade hfile hadded'.printed ?_ hall hm
        rw [htotal.files]
        exact List.subset_append_right _ _
      have hapis := generateApis_comes hclasses _ p₁ hready
      dsimp only
      cases hr' : Generate.generateApis settings (Operation.group document settings.defaultApiName) p₁ with
      | error e p₂ =>
        rw [hr'] at hapis
        obtain ⟨hfails, ms, fs, hadded', hall⟩ := hapis
        exact ⟨hfails, hone hadded' hall⟩
      | ok _ p₂ =>
        rw [hr'] at hapis
        obtain ⟨hI', hnames', ms, fs, hadded', hall⟩ := hapis
        have htotal := hadded.trans hadded'
        dsimp only
        cases hindex' : Emit.indexFile p₂.shared.scopes 0 settings.indexModule with
        | error x => exact ⟨hindex _ x hI' hindex', hone hadded' (exists_of_forall₂ hall).2⟩
        | ok index =>
          refine ⟨by rw [hnames', hnames]; rfl, s, ms, file, fs, index, htotal.modules, hmade, hall, hfile,
            hadded'.printed, ?_, indexFile_path hindex'⟩
          change p₂.files ++ [index] = _
          rw [htotal.files]
          rfl

/-- **What is shown of each module holds of a whole run.** -/
theorem generate_comes {document : Node} {Def : Session → Prop} (hdef : DefinitionsMade document settings I Def Fails)
    (hclasses : ClassesMade settings I Made Fails)
    (hindex : ∀ shared x, I [] shared → Emit.indexFile shared.scopes 0 settings.indexModule = .error x → Fails (.print x))
    (hmap : document.isMap = false → Fails .notMapping) :
    (∀ i m, (generate document settings).modules[i]? = some m →
      MadeOne document settings Def Made (generate document settings).files i m) ∧
    ((generate document settings).failure = none → Whole document settings Def Made (generate document settings).modules
      (generate document settings).files (generate document settings).apiNames) ∧
    ∀ e, (generate document settings).failure = some e → Fails e := by
  cases hm : document.isMap with
  | false =>
    obtain ⟨p, hrun, -, hmodules⟩ := Linking.generateAll_not_mapping hm settings
    rw [Linking.generate_of_error hrun, hmodules]
    refine ⟨nofun, nofun, fun e he => ?_⟩
    cases he
    exact hmap hm
  | true =>
    have hcomes := generateModules_comes hdef hclasses hindex
    rw [← Linking.generateAll_mapping hm settings] at hcomes
    cases hrun : Generate.generateAll document settings Progress.start with
    | ok _ p =>
      rw [hrun] at hcomes
      rw [Linking.generate_of_ok hrun]
      exact ⟨fun i m hmem => Whole.madeOne hcomes hmem, fun _ => hcomes, nofun⟩
    | error e p =>
      rw [hrun] at hcomes
      rw [Linking.generate_of_error hrun]
      refine ⟨hcomes.2, nofun, fun e' he => ?_⟩
      cases he
      exact hcomes.1

/-! ## Claims without failures -/

section Free

variable {document : Node}

theorem fit_definitions (settings : Settings) : Fit (World.definitions settings).session :=
  have h := (Linking.definitions_working settings).sound.numbered
  ⟨h.scopes, h.isModule⟩

theorem ready_definitions (settings : Settings) : Ready (World.definitions settings).session.shared :=
  have h := (Linking.definitions_working settings).sound.numbered
  ⟨h.scopes, h.client_root⟩

/-- **What holds when the module of the component schemas is made**, if it goes through the single steps. -/
theorem generateTypedefs_comes (P : Claim) (R : FreeRules P) {schemas : List (String × Node)}
    (hleave : ∀ key node schema, (key, node) ∈ schemas → Schema.read? node = some schema → ∀ waiting owed s, Fit s →
      Entered s (Naming.sanitize key) schema.path? → P (Naming.sanitize key :: waiting) owed s →
      Codegen.bodyOf (Naming.sanitize key) schema s = .ok none s →
      P waiting owed (s.leave (Naming.sanitize key) schema.path?)) (hfit : Fit s₀) (hready : Ready s₀.shared)
    (hstart : P [] [] s₀) :
    Comes (fun _ s => Fit s ∧ Since s₀ s ∧ Ready s.shared ∧ s.draft.methods = s₀.draft.methods ∧ P [] [] s)
      (fun _ _ => True) (Generate.generateTypedefs schemas s₀) := by
  have hall := (rules_since s₀).and ((rules_methods (· = s₀.draft.methods)).and R)
  have h := FreeRules.does_generateTypedefs hall schemas
    (fun key node schema hm hschema waiting owed s hfit hentered ⟨hsince, hmethods, hP⟩ hnone =>
      ⟨⟨hsince.grown, hsince.scope, hsince.filename, hsince.apiName, hsince.aliasScalars⟩, hmethods,
        hleave key node schema hm hschema waiting owed s hfit hentered hP hnone⟩) s₀ [] [] hfit ⟨.refl s₀, rfl, hstart⟩
  cases hr : Generate.generateTypedefs schemas s₀ with
  | error e s => trivial
  | ok _ s =>
    rw [hr] at h
    obtain ⟨hfit', hsince, hmethods, hP⟩ := h
    exact ⟨hfit', hsince, hready.since hfit' hsince, hmethods, hP⟩

/-- What holds of the module of the component schemas in any case. -/
theorem definitions_comes (settings : Settings) (schemas : List (String × Node)) :
    Comes (fun _ s => Fit s ∧ Since (World.definitions settings).session s ∧ Ready s.shared ∧ s.draft.methods = [])
      (fun _ _ => True) (Generate.generateTypedefs schemas (World.definitions settings).session) := by
  have h := generateTypedefs_comes (fun _ _ _ => True) (rules_methods fun _ => True)
    (fun key node schema (_ : (key, node) ∈ schemas) _ _ _ _ _ _ _ _ => trivial) (fit_definitions settings)
    (ready_definitions settings) trivial
  exact h.mono fun _ _ ⟨hfit, hsince, hready, hmethods, _⟩ => ⟨hfit, hsince, hready, hmethods⟩

variable (settings specs) in
/-- **What holds when the module of a class is made**, if it goes through the single steps and the methods. -/
theorem classWork_ends {Asked : String → Option String → Prop} {Listed : Node → Prop}
    {Fails : GenerateError → Session → Prop} {P : List Spec → Claim} (R : ∀ done, Rules (P done) Asked Listed Fails)
    (hmethod : ∀ done spec s m types u u', Fit u →
      P done [] (Linking.argumentNames m.arguments ++ Emit.TypeExpr.namesAll types) u →
      m.returnType = Operation.returnType types → Codegen.addMethod m u = .ok () u' → Operation.generate spec s = .ok m u' →
      P (done ++ [spec]) [] [] u') (hready : Ready shared) (hname : Dotless className)
    (hopen : className = "Client" ∨ Tree.qualify className className ∈ (shared.scopes.table 0).map Symbol.localName →
      ∀ c s, Fails (.conflict c) s)
    (hstart : ∀ s, Opened settings className shared s → P [] [] [] s)
    (hneeds : ∀ spec ∈ specs, ∀ schema name, spec.Needs schema name → Allowed Asked Listed schema name)
    (hbad : ∀ spec ∈ specs, ¬ spec.Generable → ∀ e s, Fails e s) :
    Comes (fun _ s => Fit s ∧ Since (begun settings className shared) s ∧ Ready s.shared ∧ P specs [] [] s) Fails
      (classWork className specs (begun settings className shared)) := by
  rcases hready.open settings hname specs with ⟨s, c, hwork, hwhy⟩ | ⟨-, -, s, hopened, hwork⟩
  · rw [hwork]
    exact hopen hwhy c s
  · have hall := fun done => (rules_since (begun settings className shared)).and (R done)
    have h := ends_generateMethods hall
      (fun done spec s' m types u u' hfit hP htypes hadd hrun =>
        ⟨hP.1.trans (since_addMethod hadd), hmethod done spec s' m types u u' hfit hP.2 htypes hadd hrun⟩)
      specs [] s hneeds hbad hopened.fit ⟨hopened.since, hstart s hopened⟩
    rw [hwork]
    cases hr : Generate.generateMethods specs s with
    | error e u =>
      rw [hr] at h
      exact h
    | ok _ u =>
      rw [hr] at h
      obtain ⟨hfit', hsince, hP⟩ := h
      exact ⟨hfit', hsince, (hready.ready_begun settings className).since hfit' hsince, hP⟩

/-- **What holds when the module of a class is made**, where nothing is said of failures. -/
theorem classWork_comes (P : List Spec → Claim) (R : ∀ done, FreeRules (P done))
    (hmethod : ∀ done spec s m types u u', Fit u →
      P done [] (Linking.argumentNames m.arguments ++ Emit.TypeExpr.namesAll types) u →
      m.returnType = Operation.returnType types → Codegen.addMethod m u = .ok () u' → Operation.generate spec s = .ok m u' →
      P (done ++ [spec]) [] [] u') (hready : Ready shared) (hname : Dotless className)
    (hstart : ∀ s, Opened settings className shared s → P [] [] [] s) (specs : List Spec) :
    Comes (fun _ s => Fit s ∧ Since (begun settings className shared) s ∧ Ready s.shared ∧ P specs [] [] s)
      (fun _ _ => True) (classWork className specs (begun settings className shared)) :=
  classWork_ends settings specs R hmethod hready hname (fun _ _ _ => trivial) hstart (fun _ _ _ _ => allowed_of_needs)
    fun _ _ _ _ _ => trivial

variable (document settings) in
/-- **What is shown of each module holds of a whole run**, where nothing is said of failures. -/
theorem generate_free (J : Workspace → Prop) (Def : Session → Prop) (Made : String × List Spec → Session → Prop)
    (hdef : Comes (fun _ s => Def s ∧ Ready s.shared ∧ J s.shared) (fun _ _ => True)
      (Generate.generateTypedefs (Generate.componentSchemas document) (World.definitions settings).session))
    (hclass : ∀ className specs shared, (className, specs) ∈ Operation.group document settings.defaultApiName →
      Ready shared → J shared → Comes (fun _ s => Made (className, specs) s ∧ Ready s.shared ∧ J s.shared)
        (fun _ _ => True) (classWork className specs (begun settings className shared))) :
    (∀ i m, (generate document settings).modules[i]? = some m →
      MadeOne document settings Def Made (generate document settings).files i m) ∧
    ((generate document settings).failure = none → Whole document settings Def Made (generate document settings).modules
      (generate document settings).files (generate document settings).apiNames) := by
  have hgood : DefinitionsMade document settings (fun rest shared => Ready shared ∧ J shared ∧
      rest ⊆ Operation.group document settings.defaultApiName) Def fun _ => True := by
    unfold DefinitionsMade
    cases hr : Generate.generateTypedefs (Generate.componentSchemas document) (World.definitions settings).session with
    | error e s => trivial
    | ok _ s =>
      rw [hr] at hdef
      exact ⟨hdef.1, ⟨hdef.2.1, hdef.2.2, List.Subset.refl _⟩, fun _ _ => trivial⟩
  have hclasses : ClassesMade settings (fun rest shared => Ready shared ∧ J shared ∧
      rest ⊆ Operation.group document settings.defaultApiName) Made fun _ => True := by
    rintro className specs rest shared ⟨hready, hJ, hsub⟩
    have h := hclass className specs shared (hsub List.mem_cons_self) hready hJ
    cases hr : classWork className specs (begun settings className shared) with
    | error e s => trivial
    | ok _ s =>
      rw [hr] at h
      exact ⟨h.1, ⟨h.2.1, h.2.2, fun g hg => hsub (List.mem_cons_of_mem _ hg)⟩, fun _ _ => trivial⟩
  obtain ⟨hone, hwhole, -⟩ := generate_comes hgood hclasses (fun _ _ _ _ => trivial) fun _ => trivial
  exact ⟨hone, hwhole⟩

end Free

end Making
end TypedClient
