import TypedClient.Proofs.Linking.Methods
/-!
# Run — a whole run is a path of moments

A run starts with the client module, which defines its class, and goes on module by module: each is begun, does its acts and is
printed.  What the run has made so far belongs to a moment that is reached from the start (`At`), and every printed module was
the module in the making at such a moment, with nothing waiting (`Printed`).  A run that fails ends at a moment, or with a
definition that met a conflict there; it never fails for an import without a module that defines it.
-/
namespace TypedClient

open Codegen (Session Draft Workspace Gen)
open Scope (Definition Symbol Table Tree)

/-! ## The start -/

namespace Scope.Tree

theorem sound_root (name : String) : (root name).Sound := by
  have htable : ∀ id, (root name).table id = [] := by
    intro id
    cases id <;> rfl
  constructor
  case pos => exact Nat.one_pos
  case root => rfl
  case enclosed =>
    rintro id ⟨h0, hid⟩
    exact absurd (Nat.lt_one_iff.1 hid) h0
  case nodup =>
    intro id
    rw [htable]
    exact List.nodup_nil
  all_goals
    simp only [htable]
    intros
    contradiction

end Scope.Tree

namespace Linking

open Generate (Progress)
open Emit (PrintError)

variable {w v since : World} {log : List Referral} {settings : Settings}

/-- The scopes with the client module in them. -/
def clientScopes (filename : String) : Tree :=
  (((Tree.root "root").addScope 0 "client" (some filename)).1.define 1 "Client" none true).1

/-- **The first moment**: the client module has defined its class, and no schema has been looked at. -/
def World.start (settings : Settings) : World :=
  { earlier := []
    session := ⟨⟨clientScopes settings.clientModule, [], []⟩, Generate.emptyDraft settings settings.clientModule 1 none⟩
    waiting := []
    handed := [] }

theorem sound_clientScopes (filename : String) : (clientScopes filename).Sound := by
  have hroot := (Tree.sound_root "root").addScope "client" filename
  have hid : ((Tree.root "root").addScope 0 "client" (some filename)).1.IsModule 1 := ⟨Nat.one_ne_zero, Nat.lt_succ_self 1⟩
  have hdefine : ((Tree.root "root").addScope 0 "client" (some filename)).1.define 1 "Client" none true =
      (clientScopes filename, .ok ⟨"Client", some filename, none, true, some Scope.clientSymbol⟩) := rfl
  exact hroot.define hid (by decide) (Tree.vacant_none _) hdefine

theorem start_sound (settings : Settings) : (World.start settings).Sound [] := by
  have hdefined : ∀ d, .defined d ∈ (World.start settings).scopes.table 1 → d.specPath = none := by
    intro d hd
    cases List.mem_singleton.1 hd
    rfl
  have hdrafts : ∀ draft ∈ (World.start settings).drafts, draft = (World.start settings).session.draft :=
    fun draft hd => List.mem_singleton.1 hd
  refine ⟨⟨sound_clientScopes _, rfl, ?_, rfl, _, List.mem_cons_self, rfl⟩, ⟨?_, ?_, ?_, nofun⟩,
    ⟨rfl, List.nodup_nil, nofun, nofun, nofun⟩, ⟨nofun, ?_, nofun, nofun⟩⟩
  · intro k draft hk
    cases k with
    | zero =>
      cases hk
      exact ⟨rfl, rfl⟩
    | succ k => cases hk
  · intro draft hd
    rw [hdrafts draft hd]
    exact ⟨List.nodup_nil, fun _ ⟨_, hu, _⟩ => nomatch hu⟩
  · exact ⟨List.nodup_nil, nofun⟩
  · intro draft hd d place hmem hplace
    rw [hdrafts draft hd] at hmem
    rw [hdefined d hmem] at hplace
    cases hplace
  · intro name source hi
    cases List.mem_singleton.1 hi

/-! ## Printing -/

/-- **What a module imports has a module that defines it**, no later than itself. -/
theorem World.Numbered.import_defined (hn : w.Numbered) {name source : String}
    (hi : .imported name source ∈ w.scopes.table w.scope) :
    ∃ home ≠ 0, ∃ d draft, .defined d ∈ w.scopes.table home ∧ source = Tree.qualify (w.scopes.get home).name d.localName ∧
      w.drafts[home - 1]? = some draft ∧ draft.scope = home ∧ d.definedIn = some draft.filename ∧
      w.scopes.symbol? w.scope source = some (.defined (d.within (w.scopes.get home).name)) := by
  obtain ⟨c, hc, rfl⟩ := hn.scopes.provided w.scope hn.isModule.1 name source hi
  obtain ⟨home, h0, d, hd, heq⟩ := hn.scopes.copies _ hc
  cases heq
  obtain ⟨draft, hdraft, hscope⟩ := hn.exists_draft h0 hd
  obtain ⟨-, hpath⟩ := hn.numbered _ draft hdraft
  rw [Nat.sub_add_cancel (Nat.one_le_iff_ne_zero.2 h0)] at hpath
  exact ⟨home, h0, d, draft, hd, rfl, hdraft, hscope, (hn.scopes.file home h0 d hd).trans hpath,
    hn.scopes.symbol?_root hn.isModule h0 hd⟩

theorem mapM_eq_error {α β ε : Type} {f : α → Except ε β} {e : ε} :
    ∀ {xs : List α}, xs.mapM f = .error e → ∃ x ∈ xs, f x = .error e
  | [], h => by
    rw [List.mapM_nil] at h
    cases h
  | x :: xs, h => by
    rw [List.mapM_cons] at h
    cases hx : f x with
    | error e' =>
      rw [hx] at h
      cases h
      exact ⟨x, List.mem_cons_self, hx⟩
    | ok b =>
      rw [hx] at h
      cases hxs : xs.mapM f with
      | error e' =>
        change (do let bs ← xs.mapM f; pure (b :: bs)) = _ at h
        rw [hxs] at h
        cases h
        obtain ⟨y, hy, hfy⟩ := mapM_eq_error hxs
        exact ⟨y, List.mem_cons_of_mem _ hy, hfy⟩
      | ok bs =>
        change (do let bs ← xs.mapM f; pure (b :: bs)) = _ at h
        rw [hxs] at h
        cases h

theorem moduleImports_ne (hn : w.Numbered) (filename source : String) :
    Emit.moduleImports w.scopes w.scope filename ≠ .error (.undefinedImport source) := by
  intro h
  unfold Emit.moduleImports at h
  cases hm : (w.scopes.imports w.scope).mapM fun (localName, source) =>
      Emit.importOf w.scopes w.scope filename localName source with
  | ok pairs =>
    rw [hm] at h
    cases h
  | error e =>
    rw [hm] at h
    cases h
    obtain ⟨⟨name, src⟩, hmem, himport⟩ := mapM_eq_error hm
    obtain ⟨home, h0, d, draft, hd, -, -, -, hfile, hsymbol⟩ := hn.import_defined (Tree.mem_imports.1 hmem)
    dsimp only at himport
    unfold Emit.importOf at himport
    rw [hsymbol] at himport
    simp only [Option.bind_some, Symbol.definition?, Definition.within, hfile] at himport
    split at himport
    · cases himport
    · cases himport

theorem moduleText_error {m : Emit.Module} {e : PrintError} (h : m.text = .error e) :
    ∃ code, e = .unreadableStatus code := by
  unfold Emit.Module.text at h
  split at h
  · cases h
    exact ⟨_, rfl⟩
  · cases h

/-- **A module is never refused for an import that no module defines.** -/
theorem file_ne_undefinedImport (hn : w.Numbered) (source : String) :
    w.session.file ≠ .error (.undefinedImport source) := by
  intro h
  unfold Session.file at h
  cases hm : w.session.module with
  | error e =>
    rw [hm] at h
    cases h
    unfold Session.module at hm
    cases hi : Emit.moduleImports w.scopes w.scope w.session.draft.filename with
    | error e =>
      rw [hi] at hm
      cases hm
      exact moduleImports_ne hn _ source hi
    | ok imports =>
      rw [hi] at hm
      cases hm
  | ok m =>
    rw [hm] at h
    cases ht : m.text with
    | error e =>
      obtain ⟨code, rfl⟩ := moduleText_error ht
      simp only [ht] at h
      cases h
    | ok contents =>
      simp only [ht] at h
      cases h

theorem indexFile_ne (tree : Tree) (id : Scope.Id) (filename source : String) :
    Emit.indexFile tree id filename ≠ .error (.undefinedImport source) := by
  intro h
  unfold Emit.indexFile Emit.indexExports at h
  cases hm : (tree.publicDefinitions id).mapM (Emit.exportOf filename) with
  | ok exports =>
    rw [hm] at h
    cases h
  | error e =>
    rw [hm] at h
    cases h
    obtain ⟨d, -, hd⟩ := mapM_eq_error hm
    unfold Emit.exportOf at hd
    split at hd
    · cases hd
    · split at hd
      · cases hd
      · cases hd

/-! ## Module by module -/

theorem Act.warnings (hn : w.Numbered) (h : Act w v) : w.session.shared.warnings ⊆ v.session.shared.warnings := by
  cases h with
  | warn message hm h =>
    cases h
    exact List.subset_append_left _ _
  | leave name place description hnd hp h =>
    obtain ⟨t, d, ht, rfl⟩ := Codegen.enterTypedef_none_eq_ok hp h
    exact List.subset_append_left _ _
  | use place hp h =>
    obtain ⟨t, home, e, -, -, -, hreport⟩ := hn.use hp h
    exact (reportBodiless_shared hreport).2.2.2
  | enter name place hnd hp h =>
    obtain ⟨t, ht, rfl⟩ := Codegen.define_eq_ok h
    exact List.Subset.refl _
  | finish t ht hnames h =>
    cases h
    exact List.Subset.refl _
  | method m hnames h =>
    cases h
    exact List.Subset.refl _
  | client h =>
    obtain ⟨t, ht, rfl⟩ := Codegen.importSymbol_eq_ok h
    exact List.Subset.refl _
  | publish name hnd h =>
    obtain ⟨t, ht, rfl⟩ := Codegen.define_eq_ok h
    exact List.Subset.refl _

theorem Acts.warnings (hn : w.Numbered) (h : Acts w v) : w.session.shared.warnings ⊆ v.session.shared.warnings := by
  induction h with
  | refl => exact List.Subset.refl _
  | tail hacts hact ih => exact List.Subset.trans ih (hact.warnings (Acts.numbered hn hacts))

/-- The modules of a run: the client module, and then those that were printed. -/
def drafted (settings : Settings) (printed : List Session) : List Draft :=
  (World.start settings).session.draft :: printed.map (·.draft)

theorem drafted_concat {printed : List Session} (h : w.earlier = drafted settings printed) :
    w.drafts = drafted settings (printed ++ [w.session]) := by
  rw [World.drafts, h, drafted, drafted, List.map_append]
  rfl

/-- A module was printed: it was the module in the making at a moment, behind the ones before it, with nothing waiting. -/
structure Printed (settings : Settings) (since : World) (before : List Session) (m : Session) (v : World) (log : List Referral) : Prop where
  reached : Reaches since v
  sound : v.Sound log
  session : v.session = m
  waiting : v.waiting = []
  earlier : v.earlier = drafted settings before

/-- **What a run has made so far**, at a moment with nothing waiting and the module in the making still to be printed. -/
structure Working (settings : Settings) (since : World) (p : Progress) (draft : Draft) (w : World) (log : List Referral) : Prop where
  reached : Reaches since w
  sound : w.Sound log
  shared : w.session.shared = p.shared
  draft : w.session.draft = draft
  waiting : w.waiting = []
  earlier : w.earlier = drafted settings p.modules
  printed : ∀ i m, p.modules[i]? = some m → ∃ v log', Printed settings since (p.modules.take i) m v log' ∧ log' ⊆ log ∧
    m.shared.warnings ⊆ p.shared.warnings

/-- **What a run has made so far**, between two modules. -/
structure At (settings : Settings) (since : World) (p : Progress) (w : World) (log : List Referral) : Prop where
  reached : Reaches since w
  sound : w.Sound log
  shared : w.session.shared = p.shared
  waiting : w.waiting = []
  drafts : w.drafts = drafted settings p.modules
  printed : ∀ i m, p.modules[i]? = some m → ∃ v log', Printed settings since (p.modules.take i) m v log' ∧ log' ⊆ log ∧
    m.shared.warnings ⊆ p.shared.warnings

/-- **What a run comes to**: it goes on, or it ends at a moment or with a definition that met a conflict, with what was printed
before. -/
def RunEnds {α : Type} (settings : Settings) (since : World) (good : α → Progress → Prop) :
    EStateM.Result GenerateError Progress α → Prop
  | .ok a p => good a p
  | .error e p => (∀ source, e ≠ .print (.undefinedImport source)) ∧ ∃ w, Reaches since w ∧
    drafted settings p.modules <+: w.drafts ∧ (w.session.shared = p.shared ∨ ∃ s, Breaks w s ∧ s.shared = p.shared)

theorem RunEnds.bind {α β : Type} {m : Generate.Run α} {k : α → Generate.Run β} {p : Progress} {good : α → Progress → Prop}
    {good' : β → Progress → Prop} (hm : RunEnds settings since good (m p))
    (hk : ∀ a p', good a p' → RunEnds settings since good' (k a p')) : RunEnds settings since good' ((m >>= k) p) := by
  change RunEnds settings since good' (EStateM.bind m k p)
  unfold EStateM.bind
  cases hr : m p with
  | ok a p' =>
    rw [hr] at hm
    exact hk a p' hm
  | error e p' =>
    rw [hr] at hm
    exact hm

theorem RunEnds.mono {α : Type} {good good' : α → Progress → Prop} {r : EStateM.Result GenerateError Progress α}
    (h : RunEnds settings since good r) (hgood : ∀ a p, good a p → good' a p) : RunEnds settings since good' r := by
  cases r with
  | ok a p => exact hgood a p h
  | error e p => exact h

/-- **A module is begun.** -/
theorem At.newScope {p : Progress} (h : At settings since p w log) (filename name : String) (apiName : Option String) :
    RunEnds settings since (fun id p' => ∃ w', Working settings since p' (Generate.emptyDraft settings filename id apiName) w' log)
      (Generate.newScope name filename p) := by
  have hrun : Generate.newScope name filename p = .ok w.scopes.scopes.length
      { p with shared := (w.next filename name apiName settings.aliasScalarTypedefs).session.shared } := by
    unfold Generate.newScope
    rw [← h.shared]
    rfl
  have hnext := Step.next filename name apiName settings.aliasScalarTypedefs h.waiting
  rw [hrun]
  refine ⟨_, h.reached.tail hnext, h.sound.next h.waiting filename name apiName settings.aliasScalarTypedefs, rfl, rfl, rfl,
    h.drafts, fun i m hm => ?_⟩
  obtain ⟨u, log₀, hprinted, hsub, hwarnings⟩ := h.printed i m hm
  refine ⟨u, log₀, hprinted, hsub, ?_⟩
  rw [← h.shared] at hwarnings
  exact hwarnings

/-- **A module does its acts.** -/
theorem Working.onDraft {p : Progress} {draft : Draft} {α : Type} {work : Gen α} (h : Working settings since p draft w log)
    (hwork : Follows [] work fun _ => []) :
    RunEnds settings since (fun r p' => ∃ w' log', Working settings since p' r.2 w' log') (Generate.onDraft draft work p) := by
  have hsession : w.session = ⟨p.shared, draft⟩ := by
    rw [← h.shared, ← h.draft]
  have hend := hwork w h.sound.numbered (List.nil_subset _)
  rw [hsession] at hend
  unfold Generate.onDraft
  cases hr : work ⟨p.shared, draft⟩ with
  | ok a s =>
    rw [hr] at hend
    obtain ⟨v, hacts, rfl, hwaiting, -⟩ := hend
    obtain ⟨log', hlog, hsound⟩ := hacts.reaches.sound h.sound
    have hwarnings := hacts.warnings h.sound.numbered
    rw [h.shared] at hwarnings
    refine ⟨v, log', h.reached.trans hacts.reaches, hsound, rfl, rfl, hwaiting.trans h.waiting,
      hacts.earlier.trans h.earlier, fun i m hm => ?_⟩
    obtain ⟨u, log₀, hprinted, hsub, hm⟩ := h.printed i m hm
    exact ⟨u, log₀, hprinted, List.Subset.trans hsub hlog, List.Subset.trans hm hwarnings⟩
  | error e s =>
    rw [hr] at hend
    obtain ⟨he, v, hacts, hs⟩ := hend
    refine ⟨fun source => he _, v, h.reached.trans hacts.reaches, ?_, ?_⟩
    · rw [World.drafts, hacts.earlier, h.earlier]
      exact List.prefix_append _ _
    rcases hs with rfl | hbreaks
    · exact .inl rfl
    · exact .inr ⟨s, hbreaks, rfl⟩

/-- **A module is printed.** -/
theorem Working.printDraft {p : Progress} {draft : Draft} (h : Working settings since p draft w log) :
    RunEnds settings since (fun _ p' => At settings since p' w log) (Generate.printDraft draft p) := by
  have hsession : w.session = ⟨p.shared, draft⟩ := by
    rw [← h.shared, ← h.draft]
  unfold Generate.printDraft
  cases hf : Session.file ⟨p.shared, draft⟩ with
  | error e =>
    simp only [hf]
    refine ⟨fun source heq => ?_, w, h.reached, ?_, .inl h.shared⟩
    · cases heq
      exact file_ne_undefinedImport h.sound.numbered source (hsession ▸ hf)
    · rw [World.drafts, h.earlier]
      exact List.prefix_append _ _
  | ok file =>
    simp only [hf]
    refine ⟨h.reached, h.sound, h.shared, h.waiting, ?_, fun i m hm => ?_⟩
    · rw [← hsession]
      exact drafted_concat h.earlier
    · by_cases hlt : i < p.modules.length
      · rw [List.getElem?_append_left hlt] at hm
        rw [List.take_append_of_le_length (Nat.le_of_lt hlt)]
        exact h.printed i m hm
      · have hge := Nat.le_of_not_lt hlt
        rw [List.getElem?_append_right hge] at hm
        have hi : i - p.modules.length = 0 := Nat.lt_one_iff.1 (List.getElem?_eq_some_iff.1 hm).1
        have hi' : i = p.modules.length := Nat.le_antisymm (Nat.le_of_sub_eq_zero hi) hge
        have hm' := List.mem_singleton.1 (List.mem_of_getElem? hm)
        subst hi' hm'
        refine ⟨w, log, ⟨h.reached, h.sound, hsession, h.waiting, ?_⟩, List.Subset.refl _, List.Subset.refl _⟩
        rw [List.take_left', h.earlier]
        rfl

/-! ## API classes -/

theorem importSymbol_error {s s' : Session} {source : String} {wanted : Option String} {e : GenerateError}
    (h : Codegen.importSymbol source wanted s = .error e s') : (∀ x, e ≠ .print x) ∧ s' = s := by
  rw [Codegen.importSymbol_eq] at h
  cases hr : s.shared.scopes.importSymbol s.draft.scope source wanted with
  | mk t result =>
    rw [hr] at h
    cases result with
    | ok name => cases h
    | error c =>
      cases h
      refine ⟨nofun, ?_⟩
      have ht : t = s.shared.scopes := by
        unfold Tree.importSymbol at hr
        split at hr
        · cases hr
        · split at hr
          · cases hr
          · split at hr
            · cases hr
              rfl
            · cases hr
      rw [ht]
      rfl

variable {known : List String} {α : Type} {names : α → List String}

/-- The class of a module: it extends the client class, and is the module's own public definition. -/
theorem follows_class {name : String} {m : Gen α} (hname : Dotless name) (hm : Follows [] m names) :
    Follows known (do
      let _ ← Codegen.importSymbol Scope.clientSymbol (some "Client")
      let _ ← Codegen.define name none true
      m) names := by
  have hpublish : Follows known (do
      let _ ← Codegen.define name none true
      m) names := by
    intro w hw _
    refine Ends.define hname rfl fun d s hd => ?_
    have hact := Act.publish name hname hd
    exact (hm _ ((hact.kept hw).numbered hw) (List.nil_subset _)).trans (.single hact) rfl
  have hclient : Follows known (Codegen.importSymbol Scope.clientSymbol (some "Client")) fun _ => [] := by
    intro w hw _
    cases h : Codegen.importSymbol Scope.clientSymbol (some "Client") w.session with
    | ok name s => exact ⟨_, .single (.client h), rfl, rfl, List.nil_subset _⟩
    | error e s =>
      obtain ⟨he, rfl⟩ := importSymbol_error h
      exact ⟨he, w, .refl, .inl rfl⟩
  exact hclient.bind fun _ => hpublish

/-- **An API class gets its module.** -/
theorem At.generateApi {p : Progress} {apiName : String} (h : At settings since p w log) (hname : Dotless apiName)
    (specs : List Operation.Spec) :
    RunEnds settings since (fun _ p' => ∃ w' log', At settings since p' w' log') (Generate.generateApi settings apiName specs p) := by
  unfold Generate.generateApi
  refine (h.newScope (settings.apiModule apiName) apiName (some apiName)).bind ?_
  rintro id p₁ ⟨w₁, h₁⟩
  refine (h₁.onDraft (follows_class hname (follows_generateMethods specs))).bind ?_
  rintro ⟨_, draft⟩ p₂ ⟨w₂, log₂, h₂⟩
  have h₃ : Working settings since { p₂ with apiNames := p₂.apiNames ++ [apiName] } draft w₂ log₂ :=
    ⟨h₂.reached, h₂.sound, h₂.shared, h₂.draft, h₂.waiting, h₂.earlier, h₂.printed⟩
  have hmodify : RunEnds settings since (fun _ p' => Working settings since p' draft w₂ log₂)
      ((modify fun p => { p with apiNames := p.apiNames ++ [apiName] } : Generate.Run PUnit) p₂) := h₃
  exact hmodify.bind fun _ p' h' => h'.printDraft.mono fun _ p'' h'' => ⟨w₂, log₂, h''⟩

/-- **All API classes get their modules.** -/
theorem At.generateApis : ∀ {groups : Grouped Operation.Spec} {p : Progress} {w : World} {log : List Referral},
    At settings since p w log → (∀ entry ∈ groups, Dotless entry.1) →
    RunEnds settings since (fun _ p' => ∃ w' log', At settings since p' w' log') (Generate.generateApis settings groups p)
  | [], p, w, log, h, _ => ⟨w, log, h⟩
  | (apiName, specs) :: rest, p, w, log, h, hnames => by
    unfold Generate.generateApis
    refine (h.generateApi (hnames _ List.mem_cons_self) specs).bind ?_
    rintro _ p₁ ⟨w₁, log₁, h₁⟩
    exact At.generateApis h₁ fun entry hentry => hnames entry (List.mem_cons_of_mem _ hentry)

/-! ## The whole run -/

/-- What a run has made before it begins. -/
def Progress.start : Progress := ⟨⟨Tree.root "root", [], []⟩, [], [], []⟩

/-- The moment at which the module of the component schemas is begun. -/
def World.definitions (settings : Settings) : World :=
  (World.start settings).next settings.definitionsModule "definitions" none settings.aliasScalarTypedefs

/-- What a run has made by then. -/
def Progress.definitions (settings : Settings) : Progress :=
  ⟨(World.definitions settings).session.shared, [],
    if settings.emitRuntimeClient then [⟨settings.clientModule, Emit.clientText⟩] else [], []⟩

/-- **A run begins with the client module**, and goes on to the module of the component schemas if the document is a
mapping. -/
theorem generateAll_mapping {document : Node} (h : document.isMap = true) (settings : Settings) :
    Generate.generateAll document settings Progress.start =
      Generate.generateModules document settings (World.definitions settings).session.draft
        (Generate.componentSchemas document) (Progress.definitions settings) := by
  unfold Generate.generateAll Progress.definitions
  rw [h]
  cases settings.emitRuntimeClient with
  | true => rfl
  | false => rfl

theorem generateAll_not_mapping {document : Node} (h : document.isMap = false) (settings : Settings) :
    ∃ p, Generate.generateAll document settings Progress.start = .error .notMapping p ∧
      p.shared = (World.start settings).session.shared ∧ p.modules = [] := by
  unfold Generate.generateAll
  rw [h]
  cases settings.emitRuntimeClient with
  | true => exact ⟨_, rfl, rfl, rfl⟩
  | false => exact ⟨_, rfl, rfl, rfl⟩

theorem definitions_working (settings : Settings) :
    Working settings (.start settings) (Progress.definitions settings) (World.definitions settings).session.draft
      (World.definitions settings) [] where
  reached := .single (.next _ _ _ _ rfl)
  sound := (start_sound settings).next rfl _ _ _ _
  shared := rfl
  draft := rfl
  waiting := rfl
  earlier := rfl
  printed := nofun

/-- **The module of the component schemas is made**, then those of the API classes, and the index. -/
theorem Working.generateModules {p : Progress} {draft : Draft} (h : Working settings since p draft w log)
    (hname : Dotless settings.defaultApiName) (document : Node) (schemas : List (String × Node)) :
    RunEnds settings since (fun _ p' => ∃ w' log', At settings since p' w' log')
      (Generate.generateModules document settings draft schemas p) := by
  unfold Generate.generateModules
  refine (h.onDraft (follows_generateTypedefs _)).bind ?_
  rintro ⟨_, definitions⟩ p₂ ⟨w₂, log₂, h₂⟩
  refine h₂.printDraft.bind fun _ p₃ h₃ => ?_
  refine (h₃.generateApis (Operation.dotless_group hname)).bind ?_
  rintro _ p₄ ⟨w₄, log₄, h₄⟩
  have hget : RunEnds settings since (fun p p' => p = p₄ ∧ p' = p₄) ((get : Generate.Run Progress) p₄) := ⟨rfl, rfl⟩
  refine hget.bind ?_
  rintro p p' ⟨hp, hp'⟩
  rw [hp, hp']
  cases hi : Emit.indexFile p₄.shared.scopes 0 settings.indexModule with
  | ok file =>
    exact ⟨w₄, log₄, h₄.reached, h₄.sound, h₄.shared, h₄.waiting, h₄.drafts, h₄.printed⟩
  | error e =>
    refine ⟨fun source heq => ?_, w₄, h₄.reached, h₄.drafts ▸ List.prefix_refl _, .inl h₄.shared⟩
    cases heq
    exact indexFile_ne _ _ _ _ hi

/-- **A whole run is a path of moments.** -/
theorem generateAll_runEnds {settings : Settings} (hname : Dotless settings.defaultApiName) (document : Node) :
    RunEnds settings (.start settings) (fun _ p => ∃ w log, At settings (.start settings) p w log)
      (Generate.generateAll document settings Progress.start) := by
  cases h : document.isMap with
  | true =>
    rw [generateAll_mapping h]
    exact (definitions_working settings).generateModules hname document _
  | false =>
    obtain ⟨p, hrun, hshared, hmodules⟩ := generateAll_not_mapping h settings
    rw [hrun]
    refine ⟨nofun, .start settings, .refl, ?_, .inl hshared.symm⟩
    rw [hmodules]
    exact List.prefix_refl _

/-! ## A small library -/

/-- The values that a run must be given. -/
def petValues : List (String × Node) := [("input_path", .str "api.json"), ("output_dir", .str "out")]

/-- What they are read to. -/
def petSettings : Settings := { inputPath := .ofText "api.json", outputDir := .ofText "out" }

theorem ofValues_petValues : Settings.ofValues petValues = .ok petSettings := rfl

/-- One call that answers with pets: a pet has a name, which is a schema of its own, and an age. -/
def petStore : Node :=
  let name : Node := .map (some "#/components/schemas/Name") [("type", .str "string")]
  let pet : Node := .map (some "#/components/schemas/Pet") [("type", .str "object"),
    ("properties", .map none [("name", name), ("age", .map none [("type", .str "integer")])])]
  let answer : Node := .map none [("content", .map none [("application/json", .map none [("schema",
    .map none [("type", .str "array"), ("items", pet)])])])]
  .map (some "#") [("components", .map none [("schemas", .map none [("Name", name), ("Pet", pet)])]),
    ("paths", .map none [("/pets", .map none [("get", .map none [("operationId", .str "listPets"),
      ("responses", .map none [("200", answer)])])])])]

end Linking
end TypedClient
