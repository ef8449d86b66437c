import TypedClient.Proofs.Linking.Moments
import TypedClient.Generate
/-!
# Invariant — what holds at every moment of a run

The scopes are sound, and the modules are numbered as their scopes are (`World.Numbered`).  Every definition made from a
schema at a place has its typedef, or waits for it, or is left without one with a warning (`World.Named`).  Both hold at
the start, are kept by every act, and hold again when the next module is begun.
-/
namespace TypedClient
namespace Linking

open Codegen (Session Draft Workspace Found)
open Scope (Definition Symbol Table Tree)

variable {w v : World}

/-! ## The scopes -/

/-- **The scopes are sound, and the modules are numbered as their scopes are.** -/
structure World.Numbered (w : World) : Prop where
  scopes : w.scopes.Sound
  count : w.scopes.scopes.length = w.drafts.length + 1
  numbered : ∀ k draft, w.drafts[k]? = some draft →
    draft.scope = k + 1 ∧ (w.scopes.get (k + 1)).path = some draft.filename
  client : (w.scopes.get 1).name = "client" ∧ ∃ d, .defined d ∈ w.scopes.table 1 ∧ d.localName = "Client"

namespace World.Numbered

theorem current (h : w.Numbered) : w.scope = w.earlier.length + 1 := by
  have hlast : w.drafts[w.earlier.length]? = some w.session.draft := by
    unfold drafts
    rw [List.getElem?_append_right (Nat.le_refl _), Nat.sub_self]
    rfl
  exact (h.numbered _ _ hlast).1

theorem isModule (h : w.Numbered) : w.scopes.IsModule w.scope := by
  have hcount := h.count
  unfold drafts at hcount
  rw [List.length_append, List.length_singleton] at hcount
  unfold Tree.IsModule
  rw [h.current, hcount]
  exact ⟨Nat.succ_ne_zero _, Nat.lt_succ_self _⟩

theorem scope_ne_zero (h : w.Numbered) {draft : Draft} (hd : draft ∈ w.drafts) : draft.scope ≠ 0 := by
  obtain ⟨k, hk⟩ := List.mem_iff_getElem?.1 hd
  rw [(h.numbered k draft hk).1]
  exact Nat.succ_ne_zero k

/-- Every module's scope is that of a draft. -/
theorem exists_draft (h : w.Numbered) {id : Scope.Id} (h0 : id ≠ 0) {symbol : Symbol} (hs : symbol ∈ w.scopes.table id) :
    ∃ draft, w.drafts[id - 1]? = some draft ∧ draft.scope = id := by
  have hlt := Tree.lt_of_mem hs
  rw [h.count] at hlt
  obtain ⟨k, rfl⟩ := Nat.exists_eq_succ_of_ne_zero h0
  have hk : k < w.drafts.length := Nat.lt_of_succ_lt_succ hlt
  exact ⟨w.drafts[k], List.getElem?_eq_getElem hk, (h.numbered k _ (List.getElem?_eq_getElem hk)).1⟩

/-- A module that is done has another scope than the one in the making. -/
theorem earlier_scope (h : w.Numbered) {draft : Draft} (hd : draft ∈ w.earlier) : draft.scope ≠ w.scope := by
  obtain ⟨k, hk⟩ := List.mem_iff_getElem?.1 hd
  have hlt := (List.getElem?_eq_some_iff.1 hk).1
  have hk' : w.drafts[k]? = some draft := by
    unfold drafts
    rw [List.getElem?_append_left hlt, hk]
  rw [(h.numbered k draft hk').1, h.current]
  exact fun heq => Nat.ne_of_lt hlt (Nat.succ.inj heq)

end World.Numbered

/-- **What an act keeps**: the modules before, the number and the file of the module, and all symbols. -/
structure Kept (w v : World) : Prop where
  earlier : v.earlier = w.earlier
  scope : v.scope = w.scope
  filename : v.session.draft.filename = w.session.draft.filename
  sound : v.scopes.Sound
  grown : ∃ added, Tree.Grown w.scopes v.scopes added

theorem Kept.numbered (hw : w.Numbered) (h : Kept w v) : v.Numbered := by
  obtain ⟨added, hg⟩ := h.grown
  have hlen : v.drafts.length = w.drafts.length := by
    unfold World.drafts
    rw [h.earlier, List.length_append, List.length_append]
    rfl
  refine ⟨h.sound, by rw [hg.length, hlen, hw.count], ?_, ?_⟩
  · intro k draft hk
    rw [hg.path]
    unfold World.drafts at hk
    rw [h.earlier] at hk
    by_cases hlt : k < w.earlier.length
    · refine hw.numbered k draft ?_
      rw [List.getElem?_append_left hlt] at hk
      unfold World.drafts
      rw [List.getElem?_append_left hlt, hk]
    · have hk' : w.drafts[k]? = some w.session.draft := by
        unfold World.drafts
        rw [List.getElem?_append_right (Nat.le_of_not_lt hlt)] at hk ⊢
        obtain ⟨hsub, -⟩ := List.getElem?_eq_some_iff.1 hk
        rw [Nat.lt_one_iff.1 hsub]
        rfl
      obtain ⟨hscope, hpath⟩ := hw.numbered k _ hk'
      rw [List.getElem?_append_right (Nat.le_of_not_lt hlt)] at hk
      have hdraft : draft = v.session.draft := List.mem_singleton.1 (List.mem_of_getElem? hk)
      rw [hdraft]
      exact ⟨h.scope.trans hscope, by rw [hpath, h.filename]⟩
  · obtain ⟨hname, d, hd, hlocal⟩ := hw.client
    exact ⟨by rw [hg.name, hname], d, hg.mem hd, hlocal⟩

theorem World.Numbered.client_root (h : w.Numbered) :
    ∃ d, .defined d ∈ w.scopes.table 0 ∧ d.localName = Scope.clientSymbol := by
  obtain ⟨hname, d, hd, hlocal⟩ := h.client
  refine ⟨_, h.scopes.copied 1 (by decide) d hd, ?_⟩
  change Tree.qualify _ d.localName = _
  rw [hname, hlocal]
  decide

/-- What a name stands for that comes out of a lookup, and how it is imported. -/
theorem World.Numbered.use (hw : w.Numbered) {place name : String} {d : Definition} {s : Session}
    (hp : w.session.definitionAt? place = some d) (h : Codegen.nameOf d w.session = .ok name s) :
    ∃ t home e, Found w.scopes w.scope place d home e ∧ w.scopes.Imports t w.scope name d.localName ∧
      t.Designates w.scope name home e ∧
      Codegen.reportBodiless name d (w.session.withScopes t) = .ok () s := by
  obtain ⟨t, home, e, hf, -, himports, hdesignates, hreport⟩ := Codegen.nameOf_found hw.scopes hw.isModule hp h
  exact ⟨t, home, e, hf, himports, hdesignates, hreport⟩

theorem reportBodiless_kept {name : String} {d : Definition} {s s' : Session}
    (h : Codegen.reportBodiless name d s = .ok () s') :
    s'.shared.scopes = s.shared.scopes ∧ s'.draft.scope = s.draft.scope ∧ s'.draft.filename = s.draft.filename := by
  rcases Codegen.reportBodiless_cases h with rfl | ⟨p, rfl⟩
  · exact ⟨rfl, rfl, rfl⟩
  · exact ⟨rfl, rfl, rfl⟩

/-- **Every act keeps the scopes sound.** -/
theorem Act.kept (hw : w.Numbered) (h : Act w v) : Kept w v := by
  have hsame : ∃ added, Tree.Grown w.scopes w.scopes added := ⟨_, Tree.Grown.refl _⟩
  have hdefine : ∀ place {name isPublic t d}, Dotless name → w.Unmade place →
      w.scopes.define w.scope name place isPublic = (t, .ok d) → t.Sound ∧ ∃ added, Tree.Grown w.scopes t added := by
    intro name place isPublic t d hn hp hd
    have hvacant := Codegen.vacant_of_definitionAt? hw.scopes hw.isModule hp
    obtain ⟨-, -, -, hg⟩ := hw.scopes.define_ok hw.isModule hd
    exact ⟨hw.scopes.define hw.isModule hn hvacant hd, _, hg⟩
  cases h with
  | warn message hm h =>
    cases h
    exact ⟨rfl, rfl, rfl, hw.scopes, hsame⟩
  | enter name place hn hp h =>
    obtain ⟨t, ht, rfl⟩ := Codegen.define_eq_ok h
    obtain ⟨hsound, hg⟩ := hdefine place hn hp ht
    exact ⟨rfl, rfl, rfl, hsound, hg⟩
  | leave name place description hn hp h =>
    obtain ⟨t, d, ht, rfl⟩ := Codegen.enterTypedef_none_eq_ok hp h
    obtain ⟨hsound, hg⟩ := hdefine place hn hp ht
    exact ⟨rfl, rfl, rfl, hsound, hg⟩
  | use place hp h =>
    obtain ⟨t, home, e, -, himports, -, hreport⟩ := hw.use hp h
    obtain ⟨hscopes, hscope, hfile⟩ := reportBodiless_kept hreport
    obtain ⟨added, hg, -⟩ := himports.grown
    refine ⟨rfl, hscope, hfile, ?_, added, ?_⟩
    · rw [World.scopes, hscopes]
      exact himports.sound
    · unfold World.scopes
      rw [hscopes]
      exact hg
  | finish t ht hnames h =>
    cases h
    exact ⟨rfl, rfl, rfl, hw.scopes, hsame⟩
  | method m hnames h =>
    cases h
    exact ⟨rfl, rfl, rfl, hw.scopes, hsame⟩
  | client h =>
    obtain ⟨t, ht, rfl⟩ := Codegen.importSymbol_eq_ok h
    obtain ⟨d, hd, hlocal⟩ := hw.client_root
    rw [← hlocal] at ht
    have himports := hw.scopes.importSymbol_wanted hw.isModule (by decide) hd ht
    obtain ⟨added, hg, -⟩ := himports.grown
    exact ⟨rfl, rfl, rfl, himports.sound, added, hg⟩
  | publish name hn h =>
    obtain ⟨t, ht, rfl⟩ := Codegen.define_eq_ok h
    obtain ⟨hsound, hg⟩ := hdefine none hn rfl ht
    exact ⟨rfl, rfl, rfl, hsound, hg⟩

theorem World.Numbered.next (hw : w.Numbered) (filename name : String) (apiName : Option String) (aliasScalars : Bool) :
    (w.next filename name apiName aliasScalars).Numbered := by
  have hget := hw.scopes.get_addScope name filename
  have hlen := w.scopes.length_addScope 0 name (some filename)
  refine ⟨hw.scopes.addScope name filename, ?_, ?_, ?_⟩
  · change (w.scopes.addScope 0 name (some filename)).1.scopes.length = (w.drafts ++ [_]).length + 1
    rw [hlen, hw.count, List.length_append]
    rfl
  · intro k draft hk
    change (w.drafts ++ [_])[k]? = some draft at hk
    change draft.scope = k + 1 ∧ ((w.scopes.addScope 0 name (some filename)).1.get (k + 1)).path = some draft.filename
    rw [hget]
    by_cases hlt : k < w.drafts.length
    · rw [List.getElem?_append_left hlt] at hk
      rw [if_neg (by rw [hw.count]; exact fun heq => Nat.ne_of_lt hlt (Nat.succ.inj heq))]
      exact hw.numbered k draft hk
    · rw [List.getElem?_append_right (Nat.le_of_not_lt hlt)] at hk
      have hsub : k - w.drafts.length < 1 := (List.getElem?_eq_some_iff.1 hk).1
      have hk0 : k = w.drafts.length :=
        Nat.le_antisymm (Nat.le_of_sub_eq_zero (Nat.lt_one_iff.1 hsub)) (Nat.le_of_not_lt hlt)
      have hdraft := List.mem_singleton.1 (List.mem_of_getElem? hk)
      rw [if_pos (by rw [hw.count, hk0]), hdraft]
      exact ⟨by rw [hk0]; exact hw.count, rfl⟩
  · obtain ⟨hname, d, hd, hlocal⟩ := hw.client
    refine ⟨?_, d, ?_, hlocal⟩
    · change ((w.scopes.addScope 0 name (some filename)).1.get 1).name = "client"
      rw [hw.scopes.get_addScope_of_mem name filename hd, hname]
    · change _ ∈ (w.scopes.addScope 0 name (some filename)).1.table 1
      rw [Tree.table_addScope]
      exact hd

/-! ## The definitions -/

/-- Whether a module has a typedef of a name. -/
def Types (draft : Draft) (name : String) : Prop := ∃ t ∈ draft.typedefs, t.name = name

/-- Whether a definition has no typedef, and none to come. -/
def World.Untyped (w : World) (home : Scope.Id) (d : Definition) : Prop :=
  (∀ draft ∈ w.drafts, draft.scope = home → ¬ Types draft d.localName) ∧ (home = w.scope → d.localName ∉ w.waiting)

/-- Whether every module has one typedef of a name, and defines the name. -/
def World.OneTypedef (w : World) : Prop :=
  ∀ draft ∈ w.drafts, (draft.typedefs.map (·.name)).Nodup ∧
    ∀ name, Types draft name → ∃ d, .defined d ∈ w.scopes.table draft.scope ∧ d.localName = name

/-- Whether every name that waits is defined and has no typedef yet. -/
def World.Awaited (w : World) : Prop :=
  w.waiting.Nodup ∧ ∀ name ∈ w.waiting,
    (∃ d, .defined d ∈ w.scopes.table w.scope ∧ d.localName = name) ∧ ¬ Types w.session.draft name

/-- Whether every definition for a place has a typedef, waits for it, or is left without one. -/
def World.Homed (w : World) : Prop :=
  ∀ draft ∈ w.drafts, ∀ d place, .defined d ∈ w.scopes.table draft.scope → d.specPath = some place →
    Types draft d.localName ∨ (draft.scope = w.scope ∧ d.localName ∈ w.waiting) ∨ place ∈ w.session.shared.bodiless

/-- Whether every definition that is left without a typedef has none, and has its warning. -/
def World.Warned (w : World) : Prop :=
  ∀ place ∈ w.session.shared.bodiless, ∃ home ≠ 0, ∃ d, .defined d ∈ w.scopes.table home ∧
    d.specPath = some place ∧ w.Untyped home d ∧ bodilessText d.localName place ∈ w.session.shared.warnings

/-- **What is defined has its typedef**, waits for it, or is left without one with a warning. -/
structure World.Named (w : World) : Prop where
  typed : w.OneTypedef
  waiting : w.Awaited
  homed : w.Homed
  bodiless : w.Warned

/-- **What is to be shown of an act that adds no typedef**: its new names are free, and its new definitions wait or are left
without a typedef. -/
structure Names (w v : World) (entered : List String) : Prop where
  typedefs : v.session.draft.typedefs = w.session.draft.typedefs
  waiting : v.waiting = entered ++ w.waiting
  nodup : entered.Nodup
  free : ∀ name ∈ entered, name ∉ (w.scopes.table w.scope).map Symbol.localName ∧
    ∃ d, .defined d ∈ v.scopes.table w.scope ∧ d.localName = name
  defined : ∀ home ≠ 0, ∀ d, .defined d ∈ v.scopes.table home → .defined d ∈ w.scopes.table home ∨
    (home = w.scope ∧ ∀ place, d.specPath = some place → d.localName ∈ entered ∨ place ∈ v.session.shared.bodiless)
  bodiless : ∀ place ∈ v.session.shared.bodiless, place ∈ w.session.shared.bodiless ∨ ∃ home ≠ 0, ∃ d,
    .defined d ∈ v.scopes.table home ∧ d.specPath = some place ∧ v.Untyped home d ∧
      bodilessText d.localName place ∈ v.session.shared.warnings
  grown : w.session.shared.bodiless ⊆ v.session.shared.bodiless
  warnings : w.session.shared.warnings ⊆ v.session.shared.warnings

theorem mem_drafts {w : World} {draft : Draft} : draft ∈ w.drafts ↔ draft ∈ w.earlier ∨ draft = w.session.draft := by
  simp [World.drafts]

theorem World.current_mem (w : World) : w.session.draft ∈ w.drafts :=
  mem_drafts.2 (.inr rfl)

theorem World.earlier_mem {draft : Draft} (h : draft ∈ w.earlier) : draft ∈ w.drafts :=
  mem_drafts.2 (.inl h)

/-- A module after an act is one from before, or the one in the making. -/
theorem Kept.mem_drafts (h : Kept w v) {draft : Draft} (hd : draft ∈ v.drafts) :
    draft ∈ w.earlier ∨ draft = v.session.draft := by
  rw [Linking.mem_drafts, h.earlier] at hd
  exact hd

theorem Names.types (h : Names w v entered) {name : String} :
    Types v.session.draft name ↔ Types w.session.draft name := by
  unfold Types
  rw [h.typedefs]

/-- What has no typedef gets none by an act that adds none. -/
theorem Names.untyped (hk : Kept w v) (h : Names w v entered) {home : Scope.Id} {d : Definition}
    (hd : .defined d ∈ w.scopes.table home) (hw : w.Untyped home d) : v.Untyped home d := by
  constructor
  · intro draft hdraft hs
    rcases hk.mem_drafts hdraft with hdraft | rfl
    · exact hw.1 draft (World.earlier_mem hdraft) hs
    · rw [h.types]
      exact hw.1 _ w.current_mem (hk.scope.symm.trans hs)
  · rintro hs hname
    rw [hk.scope] at hs
    subst hs
    rw [h.waiting] at hname
    rcases List.mem_append.1 hname with hname | hname
    · exact (h.free _ hname).1 (List.mem_map.2 ⟨_, hd, rfl⟩)
    · exact hw.2 rfl hname

/-- A new definition without a typedef. -/
theorem World.Named.untyped (hw : w.Named) (hn : w.Numbered) (hk : Kept w v)
    (htypedefs : v.session.draft.typedefs = w.session.draft.typedefs) (hwaiting : v.waiting = w.waiting) {d : Definition}
    (hfree : d.localName ∉ (w.scopes.table w.scope).map Symbol.localName) : v.Untyped w.scope d := by
  have hnew : ∀ {d'}, .defined d' ∈ w.scopes.table w.scope → d'.localName ≠ d.localName :=
    fun hd hlocal => hfree (List.mem_map.2 ⟨_, hd, hlocal⟩)
  constructor
  · intro draft hdraft hs
    rcases hk.mem_drafts hdraft with hdraft | rfl
    · exact absurd hs (hn.earlier_scope hdraft)
    · rw [Types, htypedefs]
      intro htypes
      obtain ⟨d', hd, hlocal⟩ := (hw.typed _ w.current_mem).2 _ htypes
      exact hnew hd hlocal
  · intro _ hname
    rw [hwaiting] at hname
    obtain ⟨⟨d', hd, hlocal⟩, -⟩ := hw.waiting.2 _ hname
    exact hnew hd hlocal

theorem Names.oneTypedef (hk : Kept w v) (h : Names w v entered) (hw : w.OneTypedef) : v.OneTypedef := by
  obtain ⟨added, hg⟩ := hk.grown
  intro draft hdraft
  rcases hk.mem_drafts hdraft with hdraft | rfl
  · obtain ⟨hnodup, hdefined⟩ := hw draft (World.earlier_mem hdraft)
    refine ⟨hnodup, fun name hname => ?_⟩
    obtain ⟨d, hd, hlocal⟩ := hdefined name hname
    exact ⟨d, hg.mem hd, hlocal⟩
  · obtain ⟨hnodup, hdefined⟩ := hw _ w.current_mem
    refine ⟨h.typedefs.symm ▸ hnodup, fun name hname => ?_⟩
    obtain ⟨d, hd, hlocal⟩ := hdefined name (h.types.1 hname)
    have hs : v.session.draft.scope = w.session.draft.scope := hk.scope
    exact ⟨d, by rw [hs]; exact hg.mem hd, hlocal⟩

theorem Names.awaited (hk : Kept w v) (h : Names w v entered) (hw : w.Awaited) (htyped : w.OneTypedef) : v.Awaited := by
  obtain ⟨added, hg⟩ := hk.grown
  obtain ⟨hnodup, hdefined⟩ := hw
  unfold World.Awaited
  rw [h.waiting, hk.scope]
  constructor
  · refine List.nodup_append.2 ⟨h.nodup, hnodup, ?_⟩
    rintro name hentered _ hwaiting rfl
    obtain ⟨⟨d, hd, hlocal⟩, -⟩ := hdefined name hwaiting
    exact (h.free name hentered).1 (List.mem_map.2 ⟨_, hd, hlocal⟩)
  · intro name hname
    rw [h.types]
    rcases List.mem_append.1 hname with hname | hname
    · obtain ⟨hfree, hd⟩ := h.free name hname
      refine ⟨hd, fun htypes => hfree ?_⟩
      obtain ⟨d, hd, hlocal⟩ := (htyped _ w.current_mem).2 name htypes
      exact List.mem_map.2 ⟨_, hd, hlocal⟩
    · obtain ⟨⟨d, hd, hlocal⟩, hnot⟩ := hdefined name hname
      exact ⟨⟨d, hg.mem hd, hlocal⟩, hnot⟩

theorem Names.homed (hn : w.Numbered) (hk : Kept w v) (h : Names w v entered) (hw : w.Homed) : v.Homed := by
  intro draft hdraft d place hd hplace
  rw [hk.scope, h.waiting]
  have hold : ∀ old ∈ w.drafts, .defined d ∈ w.scopes.table old.scope →
      Types old d.localName ∨ (old.scope = w.scope ∧ d.localName ∈ entered ++ w.waiting) ∨
        place ∈ v.session.shared.bodiless := by
    intro old hmem hd
    rcases hw old hmem d place hd hplace with ht | ⟨hs, hwait⟩ | hb
    · exact .inl ht
    · exact .inr (.inl ⟨hs, List.mem_append_right _ hwait⟩)
    · exact .inr (.inr (h.grown hb))
  rcases hk.mem_drafts hdraft with hearlier | rfl
  · have hin := World.earlier_mem hearlier
    rcases h.defined _ (hn.scope_ne_zero hin) d hd with hd | ⟨hs, -⟩
    · exact hold draft hin hd
    · exact absurd hs (hn.earlier_scope hearlier)
  · rw [h.types]
    have hs : v.session.draft.scope = w.session.draft.scope := hk.scope
    rw [hs] at hd ⊢
    rcases h.defined _ (hn.scope_ne_zero w.current_mem) d hd with hd | ⟨-, hnew⟩
    · exact hold _ w.current_mem hd
    · rcases hnew place hplace with hentered | hb
      · exact .inr (.inl ⟨rfl, List.mem_append_left _ hentered⟩)
      · exact .inr (.inr hb)

theorem Names.warned (hk : Kept w v) (h : Names w v entered) (hw : w.Warned) : v.Warned := by
  obtain ⟨added, hg⟩ := hk.grown
  intro place hplace
  rcases h.bodiless place hplace with hold | hnew
  · obtain ⟨home, h0, d, hd, hp, huntyped, hwarned⟩ := hw place hold
    exact ⟨home, h0, d, hg.mem hd, hp, h.untyped hk hd huntyped, h.warnings hwarned⟩
  · exact hnew

/-- **An act that adds no typedef** keeps what holds of the names. -/
theorem World.Named.grow (hw : w.Named) (hn : w.Numbered) (hk : Kept w v) (entered : List String)
    (h : Names w v entered) : v.Named :=
  ⟨h.oneTypedef hk hw.typed, h.awaited hk hw.waiting hw.typed, h.homed hn hk hw.homed, h.warned hk hw.bodiless⟩

/-- An act that adds no definition adds no name. -/
theorem names_of_same (htypedefs : v.session.draft.typedefs = w.session.draft.typedefs) (hwaiting : v.waiting = w.waiting)
    (hdefined : ∀ home d, .defined d ∈ v.scopes.table home → .defined d ∈ w.scopes.table home)
    (hbodiless : v.session.shared.bodiless = w.session.shared.bodiless)
    (hwarnings : w.session.shared.warnings ⊆ v.session.shared.warnings) : Names w v [] where
  typedefs := htypedefs
  waiting := hwaiting
  nodup := List.nodup_nil
  free := nofun
  defined home _ d hd := .inl (hdefined home d hd)
  bodiless _ hp := .inl (hbodiless ▸ hp)
  grown := hbodiless ▸ List.Subset.refl _
  warnings := hwarnings

theorem reportBodiless_shared {name : String} {d : Definition} {s s' : Session}
    (h : Codegen.reportBodiless name d s = .ok () s') :
    s'.draft.typedefs = s.draft.typedefs ∧ s'.draft.methods = s.draft.methods ∧
      s'.shared.bodiless = s.shared.bodiless ∧ s.shared.warnings ⊆ s'.shared.warnings := by
  rcases Codegen.reportBodiless_cases h with rfl | ⟨p, rfl⟩
  · exact ⟨rfl, rfl, rfl, List.Subset.refl _⟩
  · exact ⟨rfl, rfl, rfl, List.subset_append_left _ _⟩

/-- A definition that a module enters is new there. -/
theorem World.Numbered.entered (hw : w.Numbered) {name : String} {place : Option String} {isPublic : Bool} {t : Tree}
    {d : Definition} (hd : w.scopes.define w.scope name place isPublic = (t, .ok d)) :
    d.localName = name ∧ d.specPath = place ∧ .defined d ∈ t.table w.scope ∧
      name ∉ (w.scopes.table w.scope).map Symbol.localName := by
  obtain ⟨hdef, hfree, -, hg⟩ := hw.scopes.define_ok hw.isModule hd
  refine ⟨by rw [hdef]; rfl, by rw [hdef]; rfl, ?_, hfree⟩
  rw [hg.table, Tree.definedSymbols, if_pos rfl]
  exact List.mem_append_right _ List.mem_cons_self

section Finish

variable {t : Emit.Typedef}

/-- The moment after the typedef was added that a name waited for. -/
def World.finished (w : World) (t : Emit.Typedef) : World :=
  { w with
    session := { w.session with draft := { w.session.draft with typedefs := w.session.draft.typedefs ++ [t] } }
    waiting := w.waiting.erase t.name }

theorem World.types_finished {name : String} :
    Types (w.finished t).session.draft name ↔ Types w.session.draft name ∨ name = t.name := by
  constructor
  · rintro ⟨u, hu, rfl⟩
    rcases List.mem_append.1 hu with hu | hu
    · exact .inl ⟨u, hu, rfl⟩
    · exact .inr (by rw [List.mem_singleton.1 hu])
  · rintro (⟨u, hu, hname⟩ | rfl)
    · exact ⟨u, List.mem_append_left _ hu, hname⟩
    · exact ⟨t, List.mem_append_right _ List.mem_cons_self, rfl⟩

/-- A module after the typedef was added is one from before, or the one in the making. -/
theorem World.mem_drafts_finished {draft : Draft} (h : draft ∈ (w.finished t).drafts) :
    draft ∈ w.earlier ∨ draft = (w.finished t).session.draft :=
  mem_drafts.1 h

theorem World.OneTypedef.finished (hw : w.OneTypedef) (hwaiting : w.Awaited) (ht : t.name ∈ w.waiting) :
    (w.finished t).OneTypedef := by
  obtain ⟨hdefined, hnew⟩ := hwaiting.2 t.name ht
  intro draft hdraft
  rcases mem_drafts_finished hdraft with hdraft | rfl
  · exact hw draft (earlier_mem hdraft)
  · obtain ⟨hnodup, htyped⟩ := hw _ w.current_mem
    constructor
    · change ((w.session.draft.typedefs ++ [t]).map (·.name)).Nodup
      rw [List.map_append]
      refine List.nodup_append.2 ⟨hnodup, List.nodup_singleton _, ?_⟩
      rintro name hname _ hlast rfl
      obtain ⟨u, hu, hun⟩ := List.mem_map.1 hname
      exact hnew ⟨u, hu, hun.trans (List.mem_singleton.1 hlast)⟩
    · intro name hname
      rcases types_finished.1 hname with hname | rfl
      · exact htyped name hname
      · exact hdefined

theorem World.Awaited.finished (hw : w.Awaited) : (w.finished t).Awaited := by
  obtain ⟨hnodup, hwaiting⟩ := hw
  refine ⟨hnodup.erase _, fun name hname => ?_⟩
  obtain ⟨hne, hname⟩ := (List.Nodup.mem_erase_iff hnodup).1 hname
  obtain ⟨hd, hnot⟩ := hwaiting name hname
  exact ⟨hd, fun htypes => (types_finished.1 htypes).elim hnot hne⟩

theorem World.Homed.finished (hw : w.Homed) (hn : w.Numbered) (hwaiting : w.Awaited) : (w.finished t).Homed := by
  intro draft hdraft d place hd hplace
  have hold : ∀ old ∈ w.drafts, .defined d ∈ w.scopes.table old.scope →
      Types old d.localName ∨ (old.scope = w.scope ∧ d.localName = t.name) ∨
        (old.scope = w.scope ∧ d.localName ∈ w.waiting.erase t.name) ∨ place ∈ w.session.shared.bodiless := by
    intro old hmem hd
    rcases hw old hmem d place hd hplace with htyped | ⟨hs, hwait⟩ | hb
    · exact .inl htyped
    · by_cases heq : d.localName = t.name
      · exact .inr (.inl ⟨hs, heq⟩)
      · exact .inr (.inr (.inl ⟨hs, (List.Nodup.mem_erase_iff hwaiting.1).2 ⟨heq, hwait⟩⟩))
    · exact .inr (.inr (.inr hb))
  rcases mem_drafts_finished hdraft with hdraft | rfl
  · rcases hold draft (earlier_mem hdraft) hd with htyped | ⟨hs, -⟩ | hrest
    · exact .inl htyped
    · exact absurd hs (hn.earlier_scope hdraft)
    · exact .inr hrest
  · rcases hold _ w.current_mem hd with htyped | ⟨-, heq⟩ | hrest
    · exact .inl (types_finished.2 (.inl htyped))
    · exact .inl (types_finished.2 (.inr heq))
    · exact .inr hrest

theorem World.Warned.finished (hw : w.Warned) (ht : t.name ∈ w.waiting) : (w.finished t).Warned := by
  intro place hplace
  obtain ⟨home, h0, d, hd, hp, ⟨huntyped, hwait⟩, hwarned⟩ := hw place hplace
  refine ⟨home, h0, d, hd, hp, ⟨fun draft hdraft hs htypes => ?_, fun hs hname => ?_⟩, hwarned⟩
  · rcases mem_drafts_finished hdraft with hdraft | rfl
    · exact huntyped draft (earlier_mem hdraft) hs htypes
    · rcases types_finished.1 htypes with hold | heq
      · exact huntyped _ w.current_mem hs hold
      · exact hwait hs.symm (heq ▸ ht)
  · exact hwait hs (List.mem_of_mem_erase hname)

/-- **A typedef that a name waited for** keeps what holds of the names. -/
theorem World.Named.finished (hw : w.Named) (hn : w.Numbered) (ht : t.name ∈ w.waiting) : (w.finished t).Named :=
  ⟨hw.typed.finished hw.waiting ht, hw.waiting.finished, hw.homed.finished hn hw.waiting, hw.bodiless.finished ht⟩

end Finish

theorem Act.named (hn : w.Numbered) (hw : w.Named) (h : Act w v) : v.Named := by
  have hk := h.kept hn
  cases h with
  | warn message hm h =>
    cases h
    exact hw.grow hn hk [] (names_of_same rfl rfl (fun _ _ => id) rfl (List.subset_append_left _ _))
  | enter name place hnd hp h =>
    obtain ⟨t, ht, rfl⟩ := Codegen.define_eq_ok h
    obtain ⟨hlocal, hplace, hmem, hfree⟩ := hn.entered ht
    refine hw.grow hn hk [name] ⟨rfl, rfl, List.nodup_singleton _, ?_, ?_, fun _ => .inl,
      List.Subset.refl _, List.Subset.refl _⟩
    · intro n hmem'
      rw [List.mem_singleton.1 hmem']
      exact ⟨hfree, _, hmem, hlocal⟩
    · intro home h0 d hd
      refine (hn.scopes.defined_of_define hn.isModule ht h0 hd).imp_right fun ⟨hhome, heq⟩ => ⟨hhome, fun _ _ => .inl ?_⟩
      cases heq
      exact hlocal ▸ List.mem_cons_self
  | leave name place description hnd hp h =>
    obtain ⟨t, d, ht, rfl⟩ := Codegen.enterTypedef_none_eq_ok hp h
    obtain ⟨hlocal, hplace, hmem, hfree⟩ := hn.entered ht
    refine hw.grow hn hk [] ⟨rfl, rfl, List.nodup_nil, nofun, ?_, ?_, ?_, List.subset_append_left _ _⟩
    · intro home h0 e he
      refine (hn.scopes.defined_of_define hn.isModule ht h0 he).imp_right fun ⟨hhome, heq⟩ => ⟨hhome, fun p hp => .inr ?_⟩
      cases heq
      rw [← hplace, hp]
      exact Session.mem_leave (w.session.withScopes t) name p
    · intro p hp
      refine (Session.mem_bodiless_leave hp).imp_right fun hp => ?_
      refine ⟨w.scope, hn.isModule.1, d, hmem, hplace.trans hp, hw.untyped hn hk rfl rfl (hlocal ▸ hfree), ?_⟩
      rw [hlocal, hp]
      exact List.mem_append_right _ List.mem_cons_self
    · exact Session.bodiless_subset_leave (w.session.withScopes t) name place
  | use place hp h =>
    obtain ⟨t, home, e, -, himports, -, hreport⟩ := hn.use hp h
    obtain ⟨hscopes, -, -⟩ := reportBodiless_kept hreport
    obtain ⟨htypedefs, -, hbodiless, hwarnings⟩ := reportBodiless_shared hreport
    refine hw.grow hn hk [] (names_of_same htypedefs rfl (fun home d hd => ?_) hbodiless hwarnings)
    rw [World.scopes, hscopes] at hd
    exact himports.defined hd
  | finish t ht hnames h =>
    cases h
    exact hw.finished hn ht
  | method m hnames h =>
    cases h
    exact hw.grow hn hk [] (names_of_same rfl rfl (fun _ _ => id) rfl (List.Subset.refl _))
  | client h =>
    obtain ⟨t, ht, rfl⟩ := Codegen.importSymbol_eq_ok h
    obtain ⟨d, hd, hlocal⟩ := hn.client_root
    rw [← hlocal] at ht
    have himports := hn.scopes.importSymbol_wanted hn.isModule (by decide) hd ht
    exact hw.grow hn hk [] (names_of_same rfl rfl (fun _ _ => himports.defined) rfl (List.Subset.refl _))
  | publish name hnd h =>
    obtain ⟨t, ht, rfl⟩ := Codegen.define_eq_ok h
    obtain ⟨hlocal, hplace, hmem, hfree⟩ := hn.entered ht
    refine hw.grow hn hk [] ⟨rfl, rfl, List.nodup_nil, nofun, ?_, fun _ => .inl,
      List.Subset.refl _, List.Subset.refl _⟩
    intro home h0 e he
    refine (hn.scopes.defined_of_define hn.isModule ht h0 he).imp_right fun ⟨hhome, heq⟩ => ⟨hhome, fun p hp => ?_⟩
    cases heq
    rw [hplace] at hp
    cases hp

theorem World.Named.next (hw : w.Named) (hwaiting : w.waiting = []) (filename name : String)
    (apiName : Option String) (aliasScalars : Bool) : (w.next filename name apiName aliasScalars).Named := by
  have htable : ∀ id, (w.next filename name apiName aliasScalars).scopes.table id = w.scopes.table id :=
    w.scopes.table_addScope 0 name (some filename)
  constructor
  case typed =>
    intro draft hd
    rcases mem_drafts.1 hd with hd | rfl
    · simpa only [htable] using hw.typed draft hd
    · exact ⟨List.nodup_nil, fun _ ⟨_, hu, _⟩ => nomatch hu⟩
  case waiting => exact ⟨List.nodup_nil, nofun⟩
  case homed =>
    intro draft hdraft d place hd hplace
    rw [htable] at hd
    rcases mem_drafts.1 hdraft with hdraft | rfl
    · rcases hw.homed draft hdraft d place hd hplace with htyped | ⟨-, hwait⟩ | hb
      · exact .inl htyped
      · rw [hwaiting] at hwait
        cases hwait
      · exact .inr (.inr hb)
    · exact absurd (Tree.lt_of_mem hd) (Nat.lt_irrefl _)
  case bodiless =>
    intro place hplace
    obtain ⟨home, h0, d, hd, hp, ⟨htyped, -⟩, hwarn⟩ := hw.bodiless place hplace
    refine ⟨home, h0, d, (htable home).symm ▸ hd, hp, ⟨fun draft hdraft hs => ?_, fun _ => List.not_mem_nil⟩, hwarn⟩
    rcases mem_drafts.1 hdraft with hdraft | rfl
    · exact htyped draft hdraft hs
    · exact fun ⟨_, hu, _⟩ => nomatch hu

end Linking
end TypedClient
