import TypedClient.Proofs.Linking.Invariant
/-!
# Handed — the names that a module may refer to

A name that was handed out stands for a definition.  If that has no typedef, the module has warned of the name, and it
does so once for each definition: the warnings of references to names without a typedef are those of a log in which no
module has a place twice (`World.Logged`).  What a module imports was handed out, but for the client class, and so was
every name in its typedefs and methods (`World.Linked`).
-/
namespace TypedClient
namespace Linking

open Codegen (Session Draft Found)
open Scope (Definition Symbol Table Tree)

variable {w v : World}

/-- A module's warning of a name without a typedef. -/
structure Referral where
  scope : Scope.Id
  file : String
  place : String
  localName : String
  deriving DecidableEq

/-- The warning as it is shown. -/
def Referral.text (r : Referral) : String := referralText r.localName r.file

variable {log log' : List Referral}

/-- **The warnings of references to names without a typedef are those of a log.** -/
structure World.Logged (w : World) (log : List Referral) : Prop where
  texts : w.session.shared.warnings.filter isReferral = log.map Referral.text
  nodup : (log.map fun r => (r.scope, r.place)).Nodup
  entries : ∀ r ∈ log, ∃ home d, w.scopes.Designates r.scope r.localName home d ∧ d.specPath = some r.place ∧
    r.place ∈ w.session.shared.bodiless
  mine : ∀ r ∈ log, r.scope = w.scope → r.file = w.session.draft.filename ∧ r.place ∈ w.session.draft.reported
  reported : ∀ place ∈ w.session.draft.reported, ∃ r ∈ log, r.scope = w.scope ∧ r.place = place

/-- The entry of a module's name for a place. -/
def World.referral (w : World) (place name : String) : Referral :=
  ⟨w.scope, w.session.draft.filename, place, name⟩

/-- **A name stands for a definition**, and the module has warned of it if that has no typedef. -/
def World.StandsFor (w : World) (log : List Referral) (name : String) : Prop :=
  ∃ home d, w.scopes.Designates w.scope name home d ∧
    (d.specPath = none → name ∈ w.waiting ∨ Types w.session.draft name) ∧
    ∀ place, d.specPath = some place → place ∈ w.session.shared.bodiless → w.referral place name ∈ log

/-- **The names of a module were handed out**, and stand for definitions. -/
structure World.Linked (w : World) (log : List Referral) : Prop where
  handed : ∀ name ∈ w.handed, w.StandsFor log name
  imported : ∀ name source, .imported name source ∈ w.scopes.table w.scope →
    source = Scope.clientSymbol ∨ name ∈ w.handed
  typed : ∀ t ∈ w.session.draft.typedefs, t.body.names ⊆ w.handed
  called : ∀ m ∈ w.session.draft.methods, m.names ⊆ w.handed

/-! ## What stays -/

theorem World.Logged.grow (hw : w.Logged log) (hk : Kept w v)
    (hwarnings : v.session.shared.warnings.filter isReferral = w.session.shared.warnings.filter isReferral)
    (hreported : v.session.draft.reported = w.session.draft.reported)
    (hbodiless : w.session.shared.bodiless ⊆ v.session.shared.bodiless) : v.Logged log := by
  obtain ⟨added, hg⟩ := hk.grown
  refine ⟨hwarnings.trans hw.texts, hw.nodup, ?_, ?_, ?_⟩
  · intro r hr
    obtain ⟨home, d, hd, hp, hb⟩ := hw.entries r hr
    exact ⟨home, d, hd.mono hg, hp, hbodiless hb⟩
  · intro r hr hs
    rw [hk.filename, hreported]
    exact hw.mine r hr (hs.trans hk.scope)
  · intro place hplace
    rw [hk.scope]
    exact hw.reported place (hreported ▸ hplace)

theorem World.StandsFor.mono {name : String} (h : w.StandsFor log name) (hn : w.Numbered) (hk : Kept w v)
    (hlog : log ⊆ log')
    (hbodiless : ∀ place ∈ v.session.shared.bodiless, place ∈ w.session.shared.bodiless ∨ w.scopes.Vacant (some place))
    (htypes : name ∈ w.waiting ∨ Types w.session.draft name → name ∈ v.waiting ∨ Types v.session.draft name) :
    v.StandsFor log' name := by
  obtain ⟨added, hg⟩ := hk.grown
  obtain ⟨home, d, hd, hunplaced, hplaced⟩ := h
  refine ⟨home, d, hk.scope.symm ▸ hd.mono hg, fun hp => htypes (hunplaced hp), fun place hp hb => hlog ?_⟩
  rcases hbodiless place hb with hb | hvacant
  · have := hplaced place hp hb
    rwa [World.referral, ← hk.scope, ← hk.filename] at this
  · exact absurd hp (hvacant home (hd.home_ne_zero hn.isModule.1) d hd.defined place rfl)

/-- **What is to be shown of an act**: the names it hands out, and those in what it adds. -/
structure Hands (w v : World) (log : List Referral) : Prop where
  handed : ∀ name ∈ v.handed, name ∈ w.handed ∨ v.StandsFor log name
  grown : w.handed ⊆ v.handed
  imported : ∀ name source, .imported name source ∈ v.scopes.table v.scope →
    .imported name source ∈ w.scopes.table w.scope ∨ source = Scope.clientSymbol ∨ name ∈ v.handed
  typed : ∀ t ∈ v.session.draft.typedefs, t ∈ w.session.draft.typedefs ∨ t.body.names ⊆ v.handed
  called : ∀ m ∈ v.session.draft.methods, m ∈ w.session.draft.methods ∨ m.names ⊆ v.handed
  types : ∀ name, name ∈ w.waiting ∨ Types w.session.draft name → name ∈ v.waiting ∨ Types v.session.draft name
  bodiless : ∀ place ∈ v.session.shared.bodiless, place ∈ w.session.shared.bodiless ∨ w.scopes.Vacant (some place)

theorem World.Linked.grow (hw : w.Linked log) (hn : w.Numbered) (hk : Kept w v) (hlog : log ⊆ log')
    (h : Hands w v log') : v.Linked log' where
  handed name hname := by
    rcases h.handed name hname with hold | hnew
    · exact (hw.handed name hold).mono hn hk hlog h.bodiless (h.types name)
    · exact hnew
  imported name source hi := by
    rcases h.imported name source hi with hold | hnew
    · exact (hw.imported name source hold).imp_right fun hmem => h.grown hmem
    · exact hnew
  typed t ht := by
    rcases h.typed t ht with hold | hnew
    · exact List.Subset.trans (hw.typed t hold) h.grown
    · exact hnew
  called m hm := by
    rcases h.called m hm with hold | hnew
    · exact List.Subset.trans (hw.called m hold) h.grown
    · exact hnew

/-- An act that hands out nothing and leaves the names as they are. -/
theorem hands_of_same (hk : Kept w v) (hhanded : v.handed = w.handed)
    (himported : ∀ name source, .imported name source ∈ v.scopes.table w.scope →
      .imported name source ∈ w.scopes.table w.scope ∨ source = Scope.clientSymbol)
    (htypedefs : v.session.draft.typedefs = w.session.draft.typedefs)
    (hmethods : v.session.draft.methods = w.session.draft.methods) (hwaiting : v.waiting = w.waiting)
    (hbodiless : ∀ place ∈ v.session.shared.bodiless, place ∈ w.session.shared.bodiless ∨ w.scopes.Vacant (some place)) :
    Hands w v log where
  handed name hname := .inl (hhanded ▸ hname)
  grown := hhanded ▸ List.Subset.refl _
  imported name source hi := (himported name source (hk.scope ▸ hi)).imp_right .inl
  typed t ht := .inl (htypedefs ▸ ht)
  called m hm := .inl (hmethods ▸ hm)
  types name hname := by
    rw [hwaiting, Types, htypedefs]
    exact hname
  bodiless := hbodiless

/-! ## Using a definition -/

/-- **The log when a module warns of a name**: it gets an entry for the place. -/
theorem World.Logged.refer (hw : w.Logged log) {t : Tree} {added : Scope.Id → Scope.Table}
    (hg : Tree.Grown w.scopes t added) {place name : String} {home : Scope.Id} {e : Definition}
    (hd : t.Designates w.scope name home e) (hp : e.specPath = some place) (hb : place ∈ w.session.shared.bodiless)
    (hnew : place ∉ w.session.draft.reported) (handed : List String) :
    World.Logged { w with session := (w.session.withScopes t).refer name place, handed := handed }
      (log ++ [w.referral place name]) := by
  constructor
  case texts =>
    change (w.session.shared.warnings ++ [referralText name w.session.draft.filename]).filter isReferral = _
    rw [List.filter_append, hw.texts, List.map_append, List.filter_cons, isReferral_referralText]
    rfl
  case nodup =>
    rw [List.map_append]
    refine List.nodup_append.2 ⟨hw.nodup, List.nodup_singleton _, ?_⟩
    rintro _ hold _ hlast rfl
    obtain ⟨r, hr, heq⟩ := List.mem_map.1 hold
    rw [List.map_singleton, List.mem_singleton] at hlast
    obtain ⟨hscope, hrplace⟩ := Prod.mk.inj (heq.trans hlast)
    exact hnew ((congrArg (· ∈ _) hrplace).mp (hw.mine r hr hscope).2)
  case entries =>
    intro r hr
    rcases List.mem_append.1 hr with hr | hr
    · obtain ⟨home, d, hd, hp, hb⟩ := hw.entries r hr
      exact ⟨home, d, hd.mono hg, hp, hb⟩
    · cases List.mem_singleton.1 hr
      exact ⟨home, e, hd, hp, hb⟩
  case mine =>
    intro r hr hs
    rcases List.mem_append.1 hr with hr | hr
    · obtain ⟨hfile, hrep⟩ := hw.mine r hr hs
      exact ⟨hfile, List.mem_append_left _ hrep⟩
    · cases List.mem_singleton.1 hr
      exact ⟨rfl, List.mem_append_right _ List.mem_cons_self⟩
  case reported =>
    intro p hp
    rcases List.mem_append.1 hp with hp | hp
    · obtain ⟨r, hr, hrp⟩ := hw.reported p hp
      exact ⟨r, List.mem_append_left _ hr, hrp⟩
    · cases List.mem_singleton.1 hp
      exact ⟨_, List.mem_append_right _ List.mem_cons_self, rfl, rfl⟩

/-- A place that the module has warned of is in the log under every name that stands for it there, since there is one. -/
theorem World.Logged.referral_mem (hw : w.Logged log) (ht : w.scopes.Sound) (hid : w.scope ≠ 0) {place name : String}
    {home : Scope.Id} {e : Definition} (hd : w.scopes.Designates w.scope name home e) (hp : e.specPath = some place)
    (hrep : place ∈ w.session.draft.reported) : w.referral place name ∈ log := by
  obtain ⟨r, hr, hscope, hrplace⟩ := hw.reported place hrep
  obtain ⟨home', e', hd', hp', -⟩ := hw.entries r hr
  rw [hscope] at hd'
  obtain ⟨-, -, hname⟩ := hd'.unique ht hid hd (hrplace ▸ hp') hp
  obtain ⟨hfile, -⟩ := hw.mine r hr hscope
  have heq : r = w.referral place name := by
    cases r
    simp only [World.referral, Referral.mk.injEq]
    exact ⟨hscope, hfile, hrplace, hname⟩
  exact heq ▸ hr

/-- **The log when a definition is used**: the name is in it if it has no typedef. -/
theorem World.Logged.use (hw : w.Logged log) (hn : w.Numbered) {place name : String} {d : Definition} {s : Session}
    (hp : w.session.definitionAt? place = some d) (h : Codegen.nameOf d w.session = .ok name s) :
    ∃ log', log ⊆ log' ∧ World.Logged { w with session := s, handed := name :: w.handed } log' ∧
      (place ∈ w.session.shared.bodiless → w.referral place name ∈ log') := by
  have hk : Kept w { w with session := s, handed := name :: w.handed } := (Act.use place hp h).kept hn
  obtain ⟨t, home, e, hf, himports, hdesignates, hreport⟩ := hn.use hp h
  obtain ⟨hdplace, hplace⟩ := hf.specPath
  have hs := hreport.symm.trans (Codegen.reportBodiless_eq name d (w.session.withScopes t))
  rw [hdplace] at hs
  dsimp only at hs
  by_cases hnew : (w.session.shared.bodiless.contains place && !w.session.draft.reported.contains place) = true
  · -- the first reference of the module to this place
    have hs' : s = (w.session.withScopes t).refer name place := by
      cases hs
      exact if_pos hnew
    subst hs'
    rw [Bool.and_eq_true, Bool.not_eq_true', List.contains_iff_mem, ← Bool.not_eq_true, List.contains_iff_mem] at hnew
    obtain ⟨added, hg⟩ := hk.grown
    exact ⟨log ++ [w.referral place name], List.subset_append_left _ _, hw.refer hg hdesignates hplace hnew.1 hnew.2 _,
      fun _ => List.mem_append_right _ List.mem_cons_self⟩
  · have hs' : s = w.session.withScopes t := by
      cases hs
      exact if_neg hnew
    subst hs'
    have hlogged := hw.grow hk rfl rfl (List.Subset.refl _)
    refine ⟨log, List.Subset.refl _, hlogged, fun hb => ?_⟩
    have hrep : place ∈ w.session.draft.reported := by
      by_contra hrep
      rw [← List.contains_iff_mem] at hb hrep
      exact hnew (by rw [hb, Bool.eq_false_iff.2 hrep]; rfl)
    exact hlogged.referral_mem himports.sound hn.isModule.1 hdesignates hplace hrep

/-! ## Every act -/

theorem standsFor_of_placed {place name : String} (home : Scope.Id) {e : Definition}
    (hd : v.scopes.Designates v.scope name home e) (hp : e.specPath = some place)
    (hlog : place ∈ v.session.shared.bodiless → v.referral place name ∈ log) : v.StandsFor log name := by
  refine ⟨home, e, hd, fun hnone => ?_, fun p hp' hb => ?_⟩
  · rw [hp] at hnone
    cases hnone
  · cases hp.symm.trans hp'
    exact hlog hb

/-- A definition imports nothing. -/
theorem World.Numbered.imported_define (hn : w.Numbered) {name : String} {place : Option String} {isPublic : Bool}
    {t : Tree} {d : Definition} (ht : w.scopes.define w.scope name place isPublic = (t, .ok d)) {n source : String}
    (hi : .imported n source ∈ t.table w.scope) : .imported n source ∈ w.scopes.table w.scope := by
  rcases hn.scopes.defined_of_define hn.isModule ht hn.isModule.1 hi with hi | ⟨-, heq⟩
  · exact hi
  · cases heq

/-- **A name that is entered stands for its definition**, and no other name for that. -/
theorem World.Numbered.hands_enter (hn : w.Numbered) (hd : w.Named) {name : String} {place : Option String} {t : Tree}
    {d : Definition} (hp : w.Unmade place) (ht : w.scopes.define w.scope name place false = (t, .ok d)) :
    Hands w ⟨w.earlier, w.session.withScopes t, name :: w.waiting, name :: w.handed⟩ log := by
  obtain ⟨hlocal, hplace, hmem, -⟩ := hn.entered ht
  refine ⟨fun n hname => ?_, List.subset_cons_self _ _, fun n source hi => .inl (hn.imported_define ht hi), fun _ => .inl,
    fun _ => .inl, fun n hname => hname.imp_left (List.mem_cons_of_mem _), fun _ => .inl⟩
  rcases List.mem_cons.1 hname with rfl | hold
  · have hown := Tree.Designates.own hmem
    rw [hlocal] at hown
    refine .inr ⟨_, _, hown, fun _ => .inl List.mem_cons_self, fun p hp' hb => ?_⟩
    -- a place without a typedef has a definition
    obtain ⟨home, h0, e, he, hep, -⟩ := hd.bodiless p hb
    have hvacant := Codegen.vacant_of_definitionAt? hn.scopes hn.isModule hp
    exact absurd hep (hvacant home h0 e he p (hplace.symm.trans hp'))
  · exact .inl hold

/-- **A name that is used stands for the definition found.** -/
theorem World.Numbered.hands_use (hn : w.Numbered) {place name : String} {d : Definition} {s : Session}
    (hp : w.session.definitionAt? place = some d) (h : Codegen.nameOf d w.session = .ok name s)
    (hlog : place ∈ w.session.shared.bodiless → w.referral place name ∈ log) :
    Hands w { w with session := s, handed := name :: w.handed } log := by
  have hk := (Act.use place hp h).kept hn
  obtain ⟨t, home, e, hf, himports, hdesignates, hreport⟩ := hn.use hp h
  obtain ⟨hscopes, -, -⟩ := reportBodiless_kept hreport
  obtain ⟨htypedefs, hmethods, hbodiless, -⟩ := reportBodiless_shared hreport
  refine ⟨fun n hname => ?_, List.subset_cons_self _ _, fun n source hi => ?_, fun t ht => .inl (htypedefs ▸ ht),
    fun m hm => .inl (hmethods ▸ hm), fun n hname => ?_, fun p hp => .inl (hbodiless ▸ hp)⟩
  · rcases List.mem_cons.1 hname with rfl | hold
    · refine .inr (standsFor_of_placed home ?_ hf.specPath.2 fun hb => ?_)
      · rw [World.scopes, hscopes, hk.scope]
        exact hdesignates
      · rw [World.referral, hk.scope, hk.filename]
        exact hlog (hbodiless ▸ hb)
    · exact .inl hold
  · rw [World.scopes, hscopes, hk.scope] at hi
    rcases himports.imported hi with hi | ⟨-, rfl, -⟩
    · exact .inl hi
    · exact .inr (.inr List.mem_cons_self)
  · refine hname.imp_right fun htypes => ?_
    rw [Types, htypedefs]
    exact htypes

/-- **A typedef refers to names that were handed out.** -/
theorem hands_finished {t : Emit.Typedef} (hnames : t.body.names ⊆ w.handed) : Hands w (w.finished t) log := by
  refine ⟨fun _ => .inl, List.Subset.refl _, fun _ _ => .inl, fun u hu => ?_, fun _ => .inl, fun n hname => ?_, fun _ => .inl⟩
  · rcases List.mem_append.1 hu with hu | hu
    · exact .inl hu
    · exact .inr (List.mem_singleton.1 hu ▸ hnames)
  · rcases hname with hwait | htypes
    · by_cases heq : n = t.name
      · exact .inr (World.types_finished.2 (.inr heq))
      · exact .inl ((List.mem_erase_of_ne heq).2 hwait)
    · exact .inr (World.types_finished.2 (.inl htypes))

/-- **Every act keeps the log and the names.** -/
theorem Act.linked (hn : w.Numbered) (hd : w.Named) (hw : w.Logged log) (hl : w.Linked log) (h : Act w v) :
    ∃ log', log ⊆ log' ∧ v.Logged log' ∧ v.Linked log' := by
  have hk := h.kept hn
  have hrefl := List.Subset.refl log
  cases h with
  | warn message hm h =>
    cases h
    refine ⟨log, hrefl, hw.grow hk ?_ rfl (List.Subset.refl _), hl.grow hn hk hrefl
      (hands_of_same hk rfl (fun _ _ => .inl) rfl rfl rfl fun _ => .inl)⟩
    change (w.session.shared.warnings ++ [message]).filter isReferral = _
    rw [List.filter_append, List.filter_cons, hm]
    exact List.append_nil _
  | enter name place hnd hp h =>
    obtain ⟨t, ht, rfl⟩ := Codegen.define_eq_ok h
    exact ⟨log, hrefl, hw.grow hk rfl rfl (List.Subset.refl _), hl.grow hn hk hrefl (hn.hands_enter hd hp ht)⟩
  | leave name place description hnd hp h =>
    obtain ⟨t, d, ht, rfl⟩ := Codegen.enterTypedef_none_eq_ok hp h
    have hvacant := Codegen.vacant_of_definitionAt? hn.scopes hn.isModule hp
    refine ⟨log, hrefl, hw.grow hk ?_ rfl (Session.bodiless_subset_leave (w.session.withScopes t) name place),
      hl.grow hn hk hrefl (hands_of_same hk rfl (fun _ _ hi => .inl (hn.imported_define ht hi)) rfl rfl rfl fun p hp' => ?_)⟩
    · change (w.session.shared.warnings ++ [bodilessText name (Codegen.showPlace place)]).filter isReferral = _
      rw [List.filter_append, List.filter_cons, isReferral_bodilessText]
      exact List.append_nil _
    · refine (Session.mem_bodiless_leave hp').imp_right fun heq => ?_
      rw [← heq]
      exact hvacant
  | use place hp h =>
    obtain ⟨log', hlog, hlogged, hnew⟩ := hw.use hn hp h
    exact ⟨log', hlog, hlogged, hl.grow hn hk hlog (hn.hands_use hp h hnew)⟩
  | finish t ht hnames h =>
    cases h
    exact ⟨log, hrefl, hw.grow hk rfl rfl (List.Subset.refl _), hl.grow hn hk hrefl (hands_finished hnames)⟩
  | method m hnames h =>
    cases h
    refine ⟨log, hrefl, hw.grow hk rfl rfl (List.Subset.refl _), hl.grow hn hk hrefl
      ⟨fun _ => .inl, List.Subset.refl _, fun _ _ => .inl, fun _ => .inl, fun u hu => ?_, fun _ => id, fun _ => .inl⟩⟩
    rcases List.mem_append.1 hu with hu | hu
    · exact .inl hu
    · exact .inr (List.mem_singleton.1 hu ▸ hnames)
  | client h =>
    obtain ⟨t, ht, rfl⟩ := Codegen.importSymbol_eq_ok h
    obtain ⟨d, hd, hlocal⟩ := hn.client_root
    rw [← hlocal] at ht
    have himports := hn.scopes.importSymbol_wanted hn.isModule (by decide) hd ht
    refine ⟨log, hrefl, hw.grow hk rfl rfl (List.Subset.refl _), hl.grow hn hk hrefl
      (hands_of_same hk rfl (fun n source hi => ?_) rfl rfl rfl fun _ => .inl)⟩
    rcases himports.imported hi with hold | ⟨-, -, heq⟩
    · exact .inl hold
    · exact .inr (heq.trans hlocal)
  | publish name hnd h =>
    obtain ⟨t, ht, rfl⟩ := Codegen.define_eq_ok h
    exact ⟨log, hrefl, hw.grow hk rfl rfl (List.Subset.refl _), hl.grow hn hk hrefl
      (hands_of_same hk rfl (fun _ _ hi => .inl (hn.imported_define ht hi)) rfl rfl rfl fun _ => .inl)⟩

/-! ## The next module -/

theorem World.Logged.next (hn : w.Numbered) (hw : w.Logged log) (filename name : String) (apiName : Option String)
    (aliasScalars : Bool) : (w.next filename name apiName aliasScalars).Logged log := by
  refine ⟨hw.texts, hw.nodup, ?_, ?_, nofun⟩
  · intro r hr
    obtain ⟨home, d, hd, hp, hb⟩ := hw.entries r hr
    exact ⟨home, d, hd.addScope hn.scopes name filename, hp, hb⟩
  · intro r hr hs
    obtain ⟨home, d, hd, -⟩ := hw.entries r hr
    obtain ⟨symbol, hmem, -⟩ := hd.mem
    exact absurd hs (Nat.ne_of_lt (Tree.lt_of_mem hmem))

theorem World.Linked.next (w : World) (filename name : String) (apiName : Option String) (aliasScalars : Bool) :
    (w.next filename name apiName aliasScalars).Linked log := by
  refine ⟨nofun, fun n source hi => ?_, nofun, nofun⟩
  change _ ∈ (w.scopes.addScope 0 name (some filename)).1.table w.scopes.scopes.length at hi
  rw [Tree.table_addScope] at hi
  exact absurd (Tree.lt_of_mem hi) (Nat.lt_irrefl _)

/-! ## Every moment -/

/-- **What holds at every moment of a run.** -/
structure World.Sound (w : World) (log : List Referral) : Prop where
  numbered : w.Numbered
  named : w.Named
  logged : w.Logged log
  linked : w.Linked log

theorem Act.sound (hw : w.Sound log) (h : Act w v) : ∃ log', log ⊆ log' ∧ v.Sound log' := by
  obtain ⟨log', hlog, hlogged, hlinked⟩ := h.linked hw.numbered hw.named hw.logged hw.linked
  exact ⟨log', hlog, (h.kept hw.numbered).numbered hw.numbered, h.named hw.numbered hw.named, hlogged, hlinked⟩

theorem World.Sound.next (hw : w.Sound log) (hwaiting : w.waiting = []) (filename name : String)
    (apiName : Option String) (aliasScalars : Bool) : (w.next filename name apiName aliasScalars).Sound log :=
  ⟨hw.numbered.next filename name apiName aliasScalars, hw.named.next hwaiting filename name apiName aliasScalars,
    hw.logged.next hw.numbered filename name apiName aliasScalars, .next w filename name apiName aliasScalars⟩

theorem Step.sound (hw : w.Sound log) (h : Step w v) : ∃ log', log ⊆ log' ∧ v.Sound log' := by
  cases h with
  | act h => exact h.sound hw
  | next filename name apiName aliasScalars hwaiting =>
    exact ⟨log, List.Subset.refl _, hw.next hwaiting filename name apiName aliasScalars⟩

/-- **What holds at a moment holds at every later one.** -/
theorem Reaches.sound (hw : w.Sound log) (h : Reaches w v) : ∃ log', log ⊆ log' ∧ v.Sound log' := by
  induction h with
  | refl => exact ⟨log, List.Subset.refl _, hw⟩
  | tail _ hstep ih =>
    obtain ⟨log₁, hlog₁, hsound⟩ := ih
    obtain ⟨log₂, hlog₂, hsound⟩ := hstep.sound hsound
    exact ⟨log₂, List.Subset.trans hlog₁ hlog₂, hsound⟩

end Linking
end TypedClient
