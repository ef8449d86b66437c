import TypedClient.Proofs.Linking.Run
/-!
# References — every name that a module refers to

A printed module refers to nothing but its own typedefs and what it imports, and what it imports is the client class or
has a typedef in a module printed no later (`references_linked`).  A name may be left without a typedef; then the run
has warned of the definition, and of the name once in every module that refers to it.
-/
namespace TypedClient

open Codegen (Session Draft)
open Scope (Definition Symbol Table Tree)

/-- The names of typedefs that a module refers to: in its typedefs, and in the arguments and return types of its methods. -/
def Codegen.Session.names (m : Session) : List String :=
  m.draft.typedefs.flatMap (·.body.names) ++ m.draft.methods.flatMap (·.names)

/-- What a module imports, as local name and qualified name. -/
def Codegen.Session.imports (m : Session) : List (String × String) :=
  m.shared.scopes.imports m.draft.scope

namespace Linking

variable {w v since : World} {log log' : List Referral} {settings : Settings}

/-- Whether a name is that of a definition of the module, with its typedef there. -/
def Defines (m : Session) (name : String) : Prop :=
  (∃ d, .defined d ∈ m.shared.scopes.table m.draft.scope ∧ d.localName = name) ∧ Types m.draft name

/-- Whether a name stands for a definition that none of the printed modules has a typedef for, and the warnings tell of
both: the definition that was left without one, and the module's reference to it. -/
def LeftOut (warnings : List String) (log : List Referral) (printed : List Session) (m : Session) (name : String) : Prop :=
  ∃ home d place, m.shared.scopes.Designates m.draft.scope name home d ∧ d.specPath = some place ∧
    (∀ m' ∈ printed, m'.draft.scope = home → ¬ Types m'.draft d.localName) ∧
    bodilessText d.localName place ∈ warnings ∧ (⟨m.draft.scope, m.draft.filename, place, name⟩ : Referral) ∈ log

/-- Whether the module that defines an imported symbol exports it: it is the client module, or one of the modules
printed so far, with a typedef of the symbol's name. -/
def Exported (settings : Settings) (printed : List Session) (source : String) (d : Definition) : Prop :=
  (source = Scope.clientSymbol ∧ d.definedIn = some settings.clientModule) ∨
    ∃ m ∈ printed, d.definedIn = some m.draft.filename ∧ Types m.draft (Text.afterLast '.' d.localName)

/-! ## At a moment with nothing waiting -/

/-- A name that stands for a definition without a typedef is left out. -/
theorem World.Sound.leftOut (h : w.Sound log) {before : List Session}
    (hearlier : w.earlier = drafted settings before) {name place : String}
    {home : Scope.Id} {d : Definition} (hd : w.scopes.Designates w.scope name home d) (hp : d.specPath = some place)
    (hb : place ∈ w.session.shared.bodiless) (hlog : w.referral place name ∈ log) :
    LeftOut w.session.shared.warnings log (before ++ [w.session]) w.session name := by
  have h0 := hd.home_ne_zero h.numbered.isModule.1
  obtain ⟨home', h0', d', hd', hp', ⟨huntyped, -⟩, hwarned⟩ := h.named.bodiless place hb
  obtain ⟨rfl, rfl⟩ := h.numbered.scopes.placed home h0 home' h0' d d' place hd.defined hd' hp hp'
  refine ⟨home, d, place, hd, hp, fun m hm => huntyped _ ?_, hwarned, hlog⟩
  rw [drafted_concat hearlier]
  exact List.mem_cons_of_mem _ (List.mem_map.2 ⟨m, hm, rfl⟩)

/-- **A name that was handed out is the module's own typedef, an import, or left out.** -/
theorem World.Sound.handed_linked (h : w.Sound log) (hwaiting : w.waiting = []) {before : List Session}
    (hearlier : w.earlier = drafted settings before) {name : String}
    (hname : name ∈ w.handed) :
    Defines w.session name ∨ (∃ source, (name, source) ∈ w.session.imports) ∨
      LeftOut w.session.shared.warnings log (before ++ [w.session]) w.session name := by
  obtain ⟨home, d, hd, hunplaced, hplaced⟩ := h.linked.handed name hname
  cases hd with
  | own hmem =>
    have hnone : ∀ {n : String}, n ∉ w.waiting := by
      intro n
      rw [hwaiting]
      exact List.not_mem_nil
    cases hp : d.specPath with
    | none => exact .inl ⟨⟨d, hmem, rfl⟩, (hunplaced hp).resolve_left hnone⟩
    | some place =>
      rcases h.named.homed w.session.draft w.current_mem d place hmem hp with htypes | ⟨-, hwait⟩ | hb
      · exact .inl ⟨⟨d, hmem, rfl⟩, htypes⟩
      · exact absurd hwait hnone
      · exact .inr (.inr (h.leftOut hearlier (.own hmem) hp hb (hplaced place hp hb)))
  | foreign h0 hne hmem hi => exact .inr (.inl ⟨_, Tree.mem_imports.2 hi⟩)

/-- The client class is what the client module defines. -/
theorem World.Sound.client_exported (h : w.Sound log) {before : List Session}
    (hearlier : w.earlier = drafted settings before) {name : String}
    (hi : (name, Scope.clientSymbol) ∈ w.session.imports) (printed : List Session) :
    ∃ d, w.scopes.symbol? w.scope Scope.clientSymbol = some (.defined d) ∧ Exported settings printed Scope.clientSymbol d := by
  obtain ⟨home, h0, d, draft, hd, hsource, -, -, -, hsymbol⟩ := h.numbered.import_defined (Tree.mem_imports.1 hi)
  refine ⟨_, hsymbol, .inl ⟨rfl, ?_⟩⟩
  -- the root has one definition of that name, the copy of the client module's
  obtain ⟨hname, c, hc, hlocal⟩ := h.numbered.client
  have hfirst : w.drafts[0]? = some (World.start settings).session.draft := by
    rw [World.drafts, hearlier]
    rfl
  have hpath := (h.numbered.numbered 0 _ hfirst).2
  have hcopy := Table.eq_of_localName (h.numbered.scopes.nodup 0) (h.numbered.scopes.copied home h0 d hd)
    (h.numbered.scopes.copied 1 Nat.one_ne_zero c hc) ?_
  · rw [Symbol.defined.inj hcopy]
    exact (h.numbered.scopes.file 1 Nat.one_ne_zero c hc).trans hpath
  · change Tree.qualify _ d.localName = Tree.qualify _ c.localName
    rw [← hsource, hname, hlocal]
    rfl

/-- **What another module defines for a place is exported by it**, or is left without a typedef. -/
theorem World.Sound.exported (h : w.Sound log) {before : List Session}
    (hearlier : w.earlier = drafted settings before) {home : Scope.Id} (h0 : home ≠ 0)
    (hne : home ≠ w.scope) {d : Definition} (hd : .defined d ∈ w.scopes.table home) {place : String}
    (hp : d.specPath = some place) (source : String) :
    Exported settings (before ++ [w.session]) source (d.within (w.scopes.get home).name) ∨
      place ∈ w.session.shared.bodiless := by
  obtain ⟨draft, hk, hscope⟩ := h.numbered.exists_draft h0 hd
  have hdraft := List.mem_of_getElem? hk
  rcases h.named.homed draft hdraft d place (hscope ▸ hd) hp with htypes | ⟨hs, -⟩ | hb
  · rw [drafted_concat hearlier] at hdraft
    rcases List.mem_cons.1 hdraft with rfl | hdraft
    · -- the client module has no typedefs
      obtain ⟨t, ht, -⟩ := htypes
      cases ht
    · obtain ⟨m, hm, rfl⟩ := List.mem_map.1 hdraft
      obtain ⟨-, hpath⟩ := h.numbered.numbered _ _ hk
      rw [Nat.sub_add_cancel (Nat.one_le_iff_ne_zero.2 h0)] at hpath
      have hshort : Text.afterLast '.' (d.within (w.scopes.get home).name).localName = d.localName :=
        Scope.afterLast_qualify (h.numbered.scopes.dotless home h0 _ hd) _
      exact .inl (.inr ⟨m, hm, (h.numbered.scopes.file home h0 d hd).trans hpath, hshort.symm ▸ htypes⟩)
  · exact absurd (hscope.symm.trans hs) hne
  · exact .inr hb

/-- **What is imported is exported**, or left out. -/
theorem World.Sound.import_linked (h : w.Sound log) (hwaiting : w.waiting = []) {before : List Session}
    (hearlier : w.earlier = drafted settings before) {name source : String}
    (hi : (name, source) ∈ w.session.imports) :
    ∃ d, w.scopes.symbol? w.scope source = some (.defined d) ∧
      (Exported settings (before ++ [w.session]) source d ∨
        LeftOut w.session.shared.warnings log (before ++ [w.session]) w.session name) := by
  have hmem := Tree.mem_imports.1 hi
  rcases h.linked.imported name source hmem with rfl | hhanded
  · obtain ⟨d, hsymbol, hexported⟩ := h.client_exported hearlier hi (before ++ [w.session])
    exact ⟨d, hsymbol, .inl hexported⟩
  · have hnodup := h.numbered.scopes.nodup w.scope
    have hforeign : ∀ d, .defined d ∈ w.scopes.table w.scope → d.localName ≠ name := by
      intro d hd hlocal
      cases Table.eq_of_localName hnodup hd hmem hlocal
    obtain ⟨home, d, hd, hunplaced, hplaced⟩ := h.linked.handed name hhanded
    cases hd with
    | own hd => exact absurd rfl (hforeign d hd)
    | foreign h0 hne hd himport =>
      cases Table.eq_of_localName hnodup hmem himport rfl
      refine ⟨_, h.numbered.scopes.symbol?_root h.numbered.isModule h0 hd, ?_⟩
      cases hp : d.specPath with
      | none =>
        -- only a name of one's own stands for what has no place
        rcases hunplaced hp with hwait | htypes
        · rw [hwaiting] at hwait
          cases hwait
        · obtain ⟨e, he, hlocal⟩ := (h.named.typed _ w.current_mem).2 name htypes
          exact absurd hlocal (hforeign e he)
      | some place =>
        rcases h.exported hearlier h0 hne hd hp _ with hexported | hb
        · exact .inl hexported
        · exact .inr (h.leftOut hearlier (.foreign h0 hne hd himport) hp hb (hplaced place hp hb))

/-! ## The printed modules -/

theorem LeftOut.mono {warnings warnings' : List String} {printed : List Session} {m : Session} {name : String}
    (hw : warnings ⊆ warnings') (hlog : log ⊆ log') (h : LeftOut warnings log printed m name) :
    LeftOut warnings' log' printed m name := by
  obtain ⟨home, d, place, hd, hp, huntyped, hwarned, hreferred⟩ := h
  exact ⟨home, d, place, hd, hp, huntyped, hw hwarned, hlog hreferred⟩

/-- The names that a module refers to were handed out. -/
theorem World.Sound.names_subset (h : w.Sound log) : w.session.names ⊆ w.handed := by
  intro name hname
  rcases List.mem_append.1 hname with hname | hname
  · obtain ⟨t, ht, hmem⟩ := List.mem_flatMap.1 hname
    exact h.linked.typed t ht hmem
  · obtain ⟨m, hm, hmem⟩ := List.mem_flatMap.1 hname
    exact h.linked.called m hm hmem

/-- **Whether a printed module refers to nothing that is missing**: what it names is its own typedef, an import or left
out, and what it imports is exported or left out. -/
structure Complete (settings : Settings) (warnings : List String) (log : List Referral) (printed : List Session)
    (m : Session) : Prop where
  named : ∀ name ∈ m.names, Defines m name ∨ (∃ source, (name, source) ∈ m.imports) ∨ LeftOut warnings log printed m name
  imported : ∀ name source, (name, source) ∈ m.imports → ∃ d, m.shared.scopes.symbol? m.draft.scope source = some (.defined d) ∧
    (Exported settings printed source d ∨ LeftOut warnings log printed m name)

theorem Printed.complete {before : List Session} {m : Session} (h : Printed settings since before m v log) {warnings : List String}
    (hwarnings : m.shared.warnings ⊆ warnings) (hlog : log ⊆ log') : Complete settings warnings log' (before ++ [m]) m := by
  obtain ⟨-, hsound, rfl, hwaiting, hearlier⟩ := h
  constructor
  · intro name hname
    exact (hsound.handed_linked hwaiting hearlier (hsound.names_subset hname)).imp_right (·.imp_right (·.mono hwarnings hlog))
  · intro name source hi
    obtain ⟨d, hsymbol, hexported⟩ := hsound.import_linked hwaiting hearlier hi
    exact ⟨d, hsymbol, hexported.imp_right (·.mono hwarnings hlog)⟩

theorem generate_of_ok {document : Node} {u : Unit} {p : Generate.Progress}
    (h : Generate.generateAll document settings Progress.start = .ok u p) :
    generate document settings = ⟨p.modules, p.files, p.apiNames, p.shared.warnings, none⟩ := by
  unfold Progress.start at h
  unfold generate
  simp only [h]

theorem generate_of_error {document : Node} {e : GenerateError} {p : Generate.Progress}
    (h : Generate.generateAll document settings Progress.start = .error e p) :
    generate document settings = ⟨p.modules, p.files, p.apiNames, p.shared.warnings, some e⟩ := by
  unfold Progress.start at h
  unfold generate
  simp only [h]

/-- **No reference is missing.**  No run fails because a module imports what no module defines.  When a run comes to its
end, its warnings of references to names without a typedef are those of a log, which has one entry at most for a module
and a place; and every printed module refers to its own typedefs, to what it imports from the client module or from a
module printed no later, and to names without a typedef of which the run has warned. -/
theorem references_linked {values : List (String × Node)} (hs : Settings.ofValues values = .ok settings) (document : Node) :
    (∀ source, (generate document settings).failure ≠ some (.print (.undefinedImport source))) ∧
    ((generate document settings).failure = none → ∃ log : List Referral,
      (generate document settings).warnings.filter isReferral = log.map Referral.text ∧
      (log.map fun r => (r.scope, r.place)).Nodup ∧
      ∀ i m, (generate document settings).modules[i]? = some m →
        Complete settings (generate document settings).warnings log ((generate document settings).modules.take (i + 1)) m) := by
  have hrun := generateAll_runEnds (Settings.dotless_defaultApiName hs) document
  cases hr : Generate.generateAll document settings Progress.start with
  | error e p =>
    rw [hr] at hrun
    rw [generate_of_error hr]
    refine ⟨fun source heq => hrun.1 source (Option.some.inj heq), fun hnone => ?_⟩
    cases hnone
  | ok _ p =>
    rw [hr] at hrun
    rw [generate_of_ok hr]
    obtain ⟨w, log, h⟩ := hrun
    refine ⟨fun source heq => ?_, fun _ => ⟨log, ?_, h.sound.logged.nodup, fun i m hm => ?_⟩⟩
    · cases heq
    · dsimp only
      rw [← h.shared]
      exact h.sound.logged.texts
    · obtain ⟨v, log', hprinted, hlog, hwarnings⟩ := h.printed i m hm
      have htake : p.modules.take (i + 1) = p.modules.take i ++ [m] := by
        rw [List.take_add_one]
        exact congrArg (fun last => p.modules.take i ++ last.toList) hm
      dsimp only
      rw [htake]
      exact hprinted.complete hwarnings hlog

/-- The names of pets are left without a typedef; the API module imports the pets. -/
theorem petStore_complete : ∃ log : List Referral,
    (generate petStore petSettings).warnings.filter isReferral = log.map Referral.text ∧
    (log.map fun r => (r.scope, r.place)).Nodup ∧ log.map Referral.text = [referralText "Name" "definitions.ts"] ∧
    (generate petStore petSettings).modules.map (fun m => (m.names, m.imports)) =
      [(["Name"], []), (["Pet"], [("Client", "client.Client"), ("Pet", "definitions.Pet")])] ∧
    ∀ i m, (generate petStore petSettings).modules[i]? = some m →
      Complete petSettings (generate petStore petSettings).warnings log
        ((generate petStore petSettings).modules.take (i + 1)) m := by
  obtain ⟨-, hcomplete⟩ := references_linked ofValues_petValues petStore
  obtain ⟨log, htexts, hnodup, hmodules⟩ := hcomplete (by decide +kernel)
  refine ⟨log, htexts, hnodup, ?_, by decide +kernel, hmodules⟩
  rw [← htexts]
  decide +kernel

end Linking
end TypedClient
