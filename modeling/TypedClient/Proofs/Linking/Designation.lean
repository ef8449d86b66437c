import TypedClient.Proofs.Linking.Scopes
import TypedClient.Codegen.Types
/-!
# Designation — which definition a name of a module stands for

A name of a module stands for a definition of its own, or it is imported and stands for the definition of another module behind
the copy in the root (`Designates`).  A module has one name at most for what is made from the schema at one place
(`Designates.unique`).  What is found for a place can be imported, always, under a name that stands for it
(`Sound.importSymbol_found`).
-/
namespace TypedClient
namespace Scope
namespace Tree

variable {t t' : Tree} {id home home' : Id} {name name' source : String} {d e : Definition} {added : Id → Table}

/-- **The definition that a name of a module stands for**, and the module that makes it. -/
inductive Designates (t : Tree) (id : Id) : String → Id → Definition → Prop where
  | own {d : Definition} (hd : .defined d ∈ t.table id) : Designates t id d.localName id d
  | foreign {name : String} {home : Id} {d : Definition} (h0 : home ≠ 0) (hne : home ≠ id) (hd : .defined d ∈ t.table home)
    (hi : .imported name (qualify (t.get home).name d.localName) ∈ t.table id) : Designates t id name home d

theorem Designates.defined (h : t.Designates id name home d) : .defined d ∈ t.table home := by
  cases h with
  | own hd => exact hd
  | foreign _ _ hd _ => exact hd

theorem Designates.home_ne_zero (hid : id ≠ 0) (h : t.Designates id name home d) : home ≠ 0 := by
  cases h with
  | own _ => exact hid
  | foreign h0 _ _ _ => exact h0

theorem Designates.mono (hg : Grown t t' added) (h : t.Designates id name home d) : t'.Designates id name home d := by
  cases h with
  | own hd => exact .own (hg.mem hd)
  | foreign h0 hne hd hi => exact .foreign h0 hne (hg.mem hd) (by rw [hg.name]; exact hg.mem hi)

theorem Designates.addScope (ht : t.Sound) (h : t.Designates id name home d) (scope path : String) :
    (t.addScope 0 scope (some path)).1.Designates id name home d := by
  have htable := t.table_addScope 0 scope (some path)
  cases h with
  | own hd => exact .own ((htable id).symm ▸ hd)
  | foreign h0 hne hd hi =>
    refine .foreign h0 hne ((htable home).symm ▸ hd) ?_
    rw [ht.get_addScope_of_mem scope path hd, htable]
    exact hi

theorem Designates.mem (h : t.Designates id name home d) : ∃ symbol ∈ t.table id, symbol.localName = name := by
  cases h with
  | own hd => exact ⟨_, hd, rfl⟩
  | foreign _ _ _ hi => exact ⟨_, hi, rfl⟩

/-- **What is made from the schema at one place has one name in a module.** -/
theorem Designates.unique (ht : t.Sound) (hid : id ≠ 0) (h : t.Designates id name home d)
    (h' : t.Designates id name' home' e) {place : String} (hd : d.specPath = some place) (he : e.specPath = some place) :
    home = home' ∧ d = e ∧ name = name' := by
  obtain ⟨rfl, rfl⟩ := ht.placed home (h.home_ne_zero hid) home' (h'.home_ne_zero hid) d e place h.defined h'.defined hd he
  refine ⟨rfl, rfl, ?_⟩
  cases h with
  | own _ =>
    cases h' with
    | own _ => rfl
    | foreign _ hne _ _ => exact absurd rfl hne
  | foreign _ hne _ hi =>
    cases h' with
    | own _ => exact absurd rfl hne
    | foreign _ _ _ hi' => exact ht.once id hid name name' _ hi hi'

/-! ## Lookups -/

theorem Sound.find?_eq (ht : t.Sound) (hid : t.IsModule id) (p : Symbol → Bool) :
    t.find? id p = ((t.table id).find? p).or ((t.table 0).find? p) := by
  unfold Tree.find? outwards
  rw [ht.enclosed id hid]
  simp only [List.findSome?_cons, List.findSome?_nil]
  cases (t.table id).find? p with
  | some symbol => rfl
  | none => cases (t.table 0).find? p <;> rfl

theorem Sound.symbol?_own (ht : t.Sound) (hid : t.IsModule id) {symbol : Symbol} (hs : symbol ∈ t.table id) :
    t.symbol? id symbol.localName = some symbol := by
  unfold symbol?
  rw [ht.find?_eq hid, Table.get?_of_mem (ht.nodup id) hs]
  rfl

/-- What the root holds of a module is found from every module, since its name has a dot. -/
theorem Sound.symbol?_root (ht : t.Sound) (hid : t.IsModule id) (h0 : home ≠ 0) (hd : .defined d ∈ t.table home) :
    t.symbol? id (qualify (t.get home).name d.localName) = some (.defined (d.within (t.get home).name)) := by
  have hown : (t.table id).find? (·.localName == qualify (t.get home).name d.localName) = none := by
    rw [List.find?_eq_none]
    intro symbol hs heq
    have hdotless := ht.dotless id hid.1 symbol hs
    rw [beq_iff_eq.1 heq] at hdotless
    exact not_dotless_qualify _ _ hdotless
  have hroot := Table.get?_of_mem (ht.nodup 0) (ht.copied home h0 d hd)
  unfold symbol?
  rw [ht.find?_eq hid, hown]
  exact hroot

/-- What a name of a module leads to: the definition in its own table, or what the root has for an import. -/
def lookUp? (t : Tree) (id : Id) (name : String) : Option Definition :=
  match t.symbol? id name with
  | some (.defined d) => some d
  | some (.imported _ source) => (t.symbol? id source).bind (·.definition?)
  | none => none

/-- **A name leads to the definition that it stands for**, or to the copy of that in the root. -/
theorem Designates.lookUp?_eq (ht : t.Sound) (hid : t.IsModule id) (h : t.Designates id name home d) :
    t.lookUp? id name = some (if home = id then d else d.within (t.get home).name) := by
  unfold lookUp?
  cases h with
  | own hd =>
    have := ht.symbol?_own hid hd
    rw [Symbol.localName] at this
    rw [this, if_pos rfl]
  | foreign h0 hne hd hi =>
    have := ht.symbol?_own hid hi
    rw [Symbol.localName] at this
    rw [this, if_neg hne]
    simp only [ht.symbol?_root hid h0 hd, Option.bind_some, Symbol.definition?]

/-! ## Imports -/

theorem mem_imports : (name, source) ∈ t.imports id ↔ .imported name source ∈ t.table id := by
  constructor
  · intro h
    obtain ⟨symbol, hs, heq⟩ := List.mem_filterMap.1 h
    cases symbol with
    | defined d => cases heq
    | imported n s =>
      cases heq
      exact hs
  · exact fun h => List.mem_filterMap.2 ⟨_, h, rfl⟩

/-- A new import fits, under a free name and once. -/
theorem Sound.fits_imported (ht : t.Sound) (hid : t.IsModule id) (hname : Dotless name)
    (hfree : name ∉ (t.table id).map Symbol.localName) (hd : .defined d ∈ t.table 0) (hsource : d.localName = source)
    (hnew : ∀ symbol ∈ t.table id, symbol.provides source = false) :
    Fits t (t.enter id (.imported name source)) fun j => if j = id then [.imported name source] else [] := by
  have hg := grown_enter hid.2 (.imported name source)
  have hadded : ∀ {j symbol}, symbol ∈ (if j = id then [.imported name source] else [] : Table) →
      j = id ∧ symbol = .imported name source := by
    intro j symbol hs
    split at hs
    · exact ⟨‹j = id›, List.mem_singleton.1 hs⟩
    · cases hs
  have hcases : ∀ {j symbol}, symbol ∈ (t.enter id (.imported name source)).table j →
      symbol ∈ t.table j ∨ (j = id ∧ symbol = .imported name source) := by
    intro j symbol hs
    rw [hg.table, List.mem_append] at hs
    exact hs.imp_right hadded
  have hdefined : ∀ {j e}, .defined e ∈ (t.enter id (.imported name source)).table j → .defined e ∈ t.table j := by
    intro j e he
    rcases hcases he with he | ⟨-, heq⟩
    · exact he
    · cases heq
  have hfresh : ∀ n, .imported n source ∉ t.table id := fun n hn => by
    simpa [Symbol.provides] using hnew _ hn
  constructor
  case dotless =>
    intro j h0 symbol hs
    obtain ⟨-, rfl⟩ := hadded hs
    exact hname
  case nodup =>
    intro j
    split
    · rename_i hj
      rw [hj]
      exact Table.nodup_concat (ht.nodup id) hfree
    · rw [List.append_nil]
      exact ht.nodup j
  case copied =>
    intro j h0 e he
    cases (hadded he).2
  case copies =>
    intro symbol hs
    exact absurd (hadded hs).1 (Ne.symm hid.1)
  case file =>
    intro j h0 e he
    cases (hadded he).2
  case placed =>
    intro i hi j hj e f p he hf
    exact ht.placed i hi j hj e f p (hdefined he) (hdefined hf)
  case provided =>
    intro j h0 n src hs
    cases (hadded hs).2
    exact ⟨d, hd, hsource⟩
  case once =>
    intro j h0 n n' src hn hn'
    rcases hcases hn with hn | ⟨rfl, heq⟩
    · rcases hcases hn' with hn' | ⟨hj, heq⟩
      · exact ht.once j h0 n n' src hn hn'
      · cases heq
        exact absurd (hj ▸ hn) (hfresh n)
    · cases heq
      rcases hcases hn' with hn' | ⟨-, heq⟩
      · exact absurd hn' (hfresh n')
      · cases heq
        rfl

/-- **A run stays sound when a module imports what the root holds**, under a free name and once. -/
theorem Sound.enter_imported (ht : t.Sound) (hid : t.IsModule id) (hname : Dotless name)
    (hfree : name ∉ (t.table id).map Symbol.localName) (hd : .defined d ∈ t.table 0) (hsource : d.localName = source)
    (hnew : ∀ symbol ∈ t.table id, symbol.provides source = false) : (t.enter id (.imported name source)).Sound :=
  ht.grow (grown_enter hid.2 _) (ht.fits_imported hid hname hfree hd hsource hnew)

/-- What an import adds to the tables: one entry at most. -/
structure Imports (t t' : Tree) (id : Id) (name source : String) : Prop where
  sound : t'.Sound
  grown : ∃ added, Grown t t' added ∧ ∀ j, ∀ symbol ∈ added j, j = id ∧ symbol = .imported name source

theorem Sound.imports_refl (ht : t.Sound) : Imports t t id name source :=
  ⟨ht, _, Grown.refl t, fun _ _ hs => nomatch hs⟩

theorem Sound.imports_enter (hid : t.IsModule id) (h : (t.enter id (.imported name source)).Sound) :
    Imports t (t.enter id (.imported name source)) id name source := by
  refine ⟨h, _, grown_enter hid.2 _, fun j symbol hs => ?_⟩
  by_cases hj : j = id
  · rw [if_pos hj] at hs
    exact ⟨hj, List.mem_singleton.1 hs⟩
  · rw [if_neg hj] at hs
    cases hs

/-- Importing a definition of one's own changes nothing. -/
theorem Sound.importSymbol_own (ht : t.Sound) (hid : t.IsModule id) (hd : .defined d ∈ t.table id) :
    t.importSymbol id d.localName none = (t, .ok d.localName) := by
  unfold importSymbol
  cases hf : (t.table id).find? (·.provides d.localName) with
  | none => exact absurd (beq_self_eq_true d.localName) (List.find?_eq_none.1 hf _ hd)
  | some symbol =>
    have hs := List.mem_of_find?_eq_some hf
    have hp := List.find?_some hf
    cases symbol with
    | defined e => simp only [Symbol.localName, beq_iff_eq.1 hp]
    | imported n source =>
      -- the sources of imports have a dot, the names of a module have none
      obtain ⟨c, hc, hsource⟩ := ht.provided id hid.1 n source hs
      obtain ⟨j, -, e, -, heq⟩ := ht.copies _ hc
      cases heq
      have hdotless := ht.dotless id hid.1 _ hd
      rw [Symbol.localName, ← beq_iff_eq.1 hp, ← hsource] at hdotless
      exact absurd hdotless (not_dotless_qualify _ _)

/-- **The definition of another module can be imported.** -/
theorem Sound.importSymbol_foreign (ht : t.Sound) (hid : t.IsModule id) (h0 : home ≠ 0) (hne : home ≠ id)
    (hd : .defined d ∈ t.table home) :
    ∃ t' name, t.importSymbol id (qualify (t.get home).name d.localName) none = (t', .ok name) ∧
      Imports t t' id name (qualify (t.get home).name d.localName) ∧ t'.Designates id name home d := by
  unfold importSymbol
  cases hf : (t.table id).find? (·.provides (qualify (t.get home).name d.localName)) with
  | some symbol =>
    have hs := List.mem_of_find?_eq_some hf
    have hp := List.find?_some hf
    refine ⟨t, symbol.localName, rfl, ht.imports_refl, ?_⟩
    cases symbol with
    | defined e =>
      have hdotless := ht.dotless id hid.1 _ hs
      rw [Symbol.localName, beq_iff_eq.1 hp] at hdotless
      exact absurd hdotless (not_dotless_qualify _ _)
    | imported n source =>
      have hsource : source = qualify (t.get home).name d.localName := beq_iff_eq.1 hp
      exact .foreign h0 hne hd (hsource ▸ hs)
  | none =>
    have hnew : ∀ symbol ∈ t.table id, symbol.provides (qualify (t.get home).name d.localName) = false := by
      intro symbol hs
      simpa using List.find?_eq_none.1 hf symbol hs
    have hlast : Dotless (Text.afterLast '.' (qualify (t.get home).name d.localName)) := by
      have hdotless : Dotless d.localName := ht.dotless home h0 _ hd
      rw [afterLast_qualify hdotless]
      exact hdotless
    have hfree := Table.taken_freeName (t.table id) (Text.afterLast '.' (qualify (t.get home).name d.localName))
    have hsound := ht.enter_imported hid (Table.dotless_freeName _ hlast)
      (fun hm => by rw [Table.taken_eq_true_iff.2 hm] at hfree; cases hfree) (ht.copied home h0 d hd) rfl hnew
    have hg := grown_enter hid.2 (.imported ((t.table id).freeName (Text.afterLast '.'
      (qualify (t.get home).name d.localName))) (qualify (t.get home).name d.localName))
    refine ⟨_, _, rfl, Sound.imports_enter hid hsound, .foreign h0 hne (hg.mem hd) ?_⟩
    rw [hg.name, hg.table, if_pos rfl]
    exact List.mem_append_right _ List.mem_cons_self

/-- **What the root holds can be imported** under a wanted name. -/
theorem Sound.importSymbol_wanted (ht : t.Sound) (hid : t.IsModule id) {wanted : String} (hwanted : Dotless wanted)
    (hd : .defined d ∈ t.table 0) (h : t.importSymbol id d.localName (some wanted) = (t', .ok name)) :
    Imports t t' id name d.localName := by
  unfold importSymbol at h
  cases hf : (t.table id).find? (·.provides d.localName) with
  | some symbol =>
    rw [hf] at h
    cases h
    exact ht.imports_refl
  | none =>
    rw [hf] at h
    dsimp only at h
    by_cases htaken : t.taken id wanted = true
    · rw [if_pos htaken] at h
      cases h
    · rw [if_neg htaken] at h
      cases h
      refine Sound.imports_enter hid (ht.enter_imported hid hwanted (fun hm => htaken (Table.taken_eq_true_iff.2 hm)) hd rfl ?_)
      intro symbol hs
      simpa using List.find?_eq_none.1 hf symbol hs

theorem Imports.defined (h : Imports t t' id name source) {e : Definition} (he : .defined e ∈ t'.table home) :
    .defined e ∈ t.table home := by
  obtain ⟨added, hg, hadded⟩ := h.grown
  rw [hg.table, List.mem_append] at he
  rcases he with he | he
  · exact he
  · cases (hadded home _ he).2

theorem Imports.imported (h : Imports t t' id name source) {n src : String} (hi : .imported n src ∈ t'.table home) :
    .imported n src ∈ t.table home ∨ (home = id ∧ n = name ∧ src = source) := by
  obtain ⟨added, hg, hadded⟩ := h.grown
  rw [hg.table, List.mem_append] at hi
  rcases hi with hi | hi
  · exact .inl hi
  · obtain ⟨rfl, heq⟩ := hadded home _ hi
    cases heq
    exact .inr ⟨rfl, rfl, rfl⟩

end Tree
end Scope

namespace Codegen

open Scope

variable {s : Session} {place : String} {d : Definition}

/-- The definition found for a place, where it was made. -/
inductive Found (t : Tree) (id : Id) (place : String) : Definition → Id → Definition → Prop where
  | own {d : Definition} (hd : .defined d ∈ t.table id) (hp : d.specPath = some place) : Found t id place d id d
  | foreign {home : Id} {d : Definition} (h0 : home ≠ 0) (hne : home ≠ id) (hd : .defined d ∈ t.table home)
    (hp : d.specPath = some place) : Found t id place (d.within (t.get home).name) home d

/-- Whether a symbol is a definition made from the schema at a place. -/
def isMadeFrom (place : String) (symbol : Symbol) : Bool :=
  match symbol.definition? with
  | some d => d.specPath == some place
  | none => false

theorem isMadeFrom_eq_true {symbol : Symbol} (h : isMadeFrom place symbol = true) :
    ∃ d, symbol = .defined d ∧ d.specPath = some place := by
  cases symbol with
  | defined d => exact ⟨d, rfl, beq_iff_eq.1 h⟩
  | imported _ _ => cases h

theorem isMadeFrom_defined (h : d.specPath = some place) : isMadeFrom place (.defined d) = true :=
  beq_iff_eq.2 h

theorem definitionAt?_eq (ht : s.shared.scopes.Sound) (hid : s.shared.scopes.IsModule s.draft.scope) (place : String) :
    s.definitionAt? place = (((s.shared.scopes.table s.draft.scope).find? (isMadeFrom place)).or
      ((s.shared.scopes.table 0).find? (isMadeFrom place))).bind (·.definition?) :=
  congrArg (·.bind (·.definition?)) (ht.find?_eq hid (isMadeFrom place))

theorem found_of_definitionAt? (ht : s.shared.scopes.Sound) (hid : s.shared.scopes.IsModule s.draft.scope)
    (h : s.definitionAt? place = some d) :
    ∃ home e, Found s.shared.scopes s.draft.scope place d home e := by
  rw [definitionAt?_eq ht hid] at h
  cases hown : (s.shared.scopes.table s.draft.scope).find? (isMadeFrom place) with
  | some symbol =>
    obtain ⟨e, rfl, hp⟩ := isMadeFrom_eq_true (List.find?_some hown)
    rw [hown] at h
    cases h
    exact ⟨_, _, .own (List.mem_of_find?_eq_some hown) hp⟩
  | none =>
    rw [hown, Option.none_or] at h
    cases hroot : (s.shared.scopes.table 0).find? (isMadeFrom place) with
    | none =>
      rw [hroot] at h
      cases h
    | some symbol =>
      obtain ⟨c, rfl, hp⟩ := isMadeFrom_eq_true (List.find?_some hroot)
      rw [hroot] at h
      cases h
      obtain ⟨home, h0, e, he, heq⟩ := ht.copies _ (List.mem_of_find?_eq_some hroot)
      cases heq
      refine ⟨home, e, .foreign h0 ?_ he hp⟩
      rintro rfl
      exact List.find?_eq_none.1 hown _ he (isMadeFrom_defined hp)

theorem vacant_of_definitionAt? (ht : s.shared.scopes.Sound) (hid : s.shared.scopes.IsModule s.draft.scope)
    {place : Option String} (h : place.bind s.definitionAt? = none) : s.shared.scopes.Vacant place := by
  rintro home h0 e he p rfl hp
  rw [Option.bind_some, definitionAt?_eq ht hid] at h
  have hcopy := ht.copied home h0 e he
  cases hroot : (s.shared.scopes.table 0).find? (isMadeFrom p) with
  | none => exact List.find?_eq_none.1 hroot _ hcopy (isMadeFrom_defined (d := e.within _) hp)
  | some symbol =>
    obtain ⟨c, rfl, -⟩ := isMadeFrom_eq_true (List.find?_some hroot)
    rw [hroot] at h
    cases hown : (s.shared.scopes.table s.draft.scope).find? (isMadeFrom p) with
    | none =>
      rw [hown] at h
      cases h
    | some symbol =>
      obtain ⟨c', rfl, -⟩ := isMadeFrom_eq_true (List.find?_some hown)
      rw [hown] at h
      cases h

/-- A place that has a definition is found to have one. -/
theorem exists_definitionAt? (ht : s.shared.scopes.Sound) (hid : s.shared.scopes.IsModule s.draft.scope) {home : Id}
    (h0 : home ≠ 0) (hd : .defined d ∈ s.shared.scopes.table home) (hp : d.specPath = some place) :
    ∃ c, s.definitionAt? place = some c := by
  cases h : s.definitionAt? place with
  | some c => exact ⟨c, rfl⟩
  | none => 
    have hvacant : s.shared.scopes.Vacant (some place) := vacant_of_definitionAt? ht hid h
    exact absurd hp (hvacant home h0 d hd place rfl)

theorem Found.specPath {t : Tree} {id home : Id} {c e : Definition} (h : Found t id place c home e) :
    c.specPath = some place ∧ e.specPath = some place := by
  cases h with
  | own _ hp => exact ⟨hp, hp⟩
  | foreign _ _ _ hp => exact ⟨hp, hp⟩

theorem Found.defined {t : Tree} {id home : Id} {c e : Definition} (hid : id ≠ 0) (h : Found t id place c home e) :
    home ≠ 0 ∧ .defined e ∈ t.table home := by
  cases h with
  | own hd _ => exact ⟨hid, hd⟩
  | foreign h0 _ hd _ => exact ⟨h0, hd⟩

/-- What is found for a place is determined by the scopes. -/
theorem Found.eq {t : Tree} {id home home' : Id} {c c' e e' : Definition} (ht : t.Sound) (hid : id ≠ 0)
    (h : Found t id place c home e) (h' : Found t id place c' home' e') : c = c' := by
  cases h with
  | own hd hp =>
    cases h' with
    | own hd' hp' => exact (ht.placed _ hid _ hid _ _ _ hd hd' hp hp').2
    | foreign h0 hne hd' hp' => exact absurd (ht.placed _ hid _ h0 _ _ _ hd hd' hp hp').1.symm hne
  | foreign h0 hne hd hp =>
    cases h' with
    | own hd' hp' => exact absurd (ht.placed _ h0 _ hid _ _ _ hd hd' hp hp').1 hne
    | foreign h0' hne' hd' hp' =>
      obtain ⟨rfl, rfl⟩ := ht.placed _ h0 _ h0' _ _ _ hd hd' hp hp'
      rfl

theorem Found.mono {t t' : Tree} {id home : Id} {c e : Definition} {added : Id → Table} (hg : Tree.Grown t t' added)
    (h : Found t id place c home e) : Found t' id place c home e := by
  cases h with
  | own hd hp => exact .own (hg.mem hd) hp
  | foreign h0 hne hd hp =>
    rw [← hg.name]
    exact .foreign h0 hne (hg.mem hd) hp

/-- **What is found for a place stays.** -/
theorem definitionAt?_mono {s' : Session} {added : Id → Table} (ht : s.shared.scopes.Sound)
    (hid : s.shared.scopes.IsModule s.draft.scope) (ht' : s'.shared.scopes.Sound)
    (hg : Tree.Grown s.shared.scopes s'.shared.scopes added) (hscope : s'.draft.scope = s.draft.scope)
    (h : s.definitionAt? place = some d) : s'.definitionAt? place = some d := by
  have hid' : s'.shared.scopes.IsModule s'.draft.scope := hscope ▸ (hg.isModule _).2 hid
  obtain ⟨home, e, hf⟩ := found_of_definitionAt? ht hid h
  have hf' := hf.mono hg
  rw [← hscope] at hf'
  obtain ⟨h0, he⟩ := hf'.defined hid'.1
  obtain ⟨c, hc⟩ := exists_definitionAt? ht' hid' h0 he hf'.specPath.2
  obtain ⟨_, _, hfc⟩ := found_of_definitionAt? ht' hid' hc
  rw [hc, hf'.eq ht' hid'.1 hfc]

/-- **What is found for a place can be imported**, and the name stands for it. -/
theorem Found.importSymbol {t : Tree} {id home : Id} {e : Definition} (ht : t.Sound) (hid : t.IsModule id)
    (h : Found t id place d home e) :
    ∃ t' name, t.importSymbol id d.localName none = (t', .ok name) ∧ t.Imports t' id name d.localName ∧
      t'.Designates id name home e := by
  cases h with
  | own hd hp => exact ⟨t, _, ht.importSymbol_own hid hd, ht.imports_refl, .own hd⟩
  | foreign h0 hne hd hp => exact ht.importSymbol_foreign hid h0 hne hd

end Codegen
end TypedClient
