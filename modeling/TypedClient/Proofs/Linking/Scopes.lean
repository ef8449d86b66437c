import TypedClient.Proofs.Linking.Names
/-!
# Scopes — what the tables of a run hold

Under the root there is one scope for every module.  The root holds nothing but copies: for every definition of a module
one, behind the name of the module's scope (`Sound.copied`, `Sound.copies`).  No two definitions of modules are made
from the schema at one place (`Sound.placed`), and what a module imports is in the root (`Sound.provided`).  All this
holds of an empty root, and it stays so when a module is added, when a module defines a name for a place that has no
definition yet, and when it imports what the root holds.
-/
namespace TypedClient
namespace Scope

/-- The qualified name of the class that all API classes extend. -/
def clientSymbol : String := "client.Client"

namespace Tree

/-- Whether a number is that of a module's scope. -/
def IsModule (t : Tree) (id : Id) : Prop := id ≠ 0 ∧ id < t.scopes.length

/-- **What holds of the scopes of a run.** -/
structure Sound (t : Tree) : Prop where
  pos : 0 < t.scopes.length
  root : (t.get 0).enclosing = []
  enclosed : ∀ id, t.IsModule id → (t.get id).enclosing = [0]
  dotless : ∀ id ≠ 0, ∀ symbol ∈ t.table id, Dotless symbol.localName
  nodup : ∀ id, ((t.table id).map Symbol.localName).Nodup
  copied : ∀ id ≠ 0, ∀ d, .defined d ∈ t.table id → .defined (d.within (t.get id).name) ∈ t.table 0
  copies : ∀ symbol ∈ t.table 0, ∃ id ≠ 0, ∃ d, .defined d ∈ t.table id ∧ symbol = .defined (d.within (t.get id).name)
  file : ∀ id ≠ 0, ∀ d, .defined d ∈ t.table id → d.definedIn = (t.get id).path
  placed : ∀ i ≠ 0, ∀ j ≠ 0, ∀ d e p, .defined d ∈ t.table i → .defined e ∈ t.table j → d.specPath = some p →
    e.specPath = some p → i = j ∧ d = e
  provided : ∀ id ≠ 0, ∀ name source, .imported name source ∈ t.table id →
    ∃ d, .defined d ∈ t.table 0 ∧ d.localName = source
  once : ∀ id ≠ 0, ∀ name name' source, .imported name source ∈ t.table id → .imported name' source ∈ t.table id →
    name = name'

theorem Grown.isModule {t t' : Tree} {added : Id → Table} (h : Grown t t' added) (id : Id) :
    t'.IsModule id ↔ t.IsModule id := by
  rw [IsModule, IsModule, h.length]

/-! ## New symbols -/

/-- **What is to be shown of new symbols** at the ends of the tables. -/
structure Fits (t t' : Tree) (added : Id → Table) : Prop where
  dotless : ∀ id ≠ 0, ∀ symbol ∈ added id, Dotless symbol.localName
  nodup : ∀ id, ((t.table id ++ added id).map Symbol.localName).Nodup
  copied : ∀ id ≠ 0, ∀ d, .defined d ∈ added id → .defined (d.within (t.get id).name) ∈ added 0
  copies : ∀ symbol ∈ added 0, ∃ id ≠ 0, ∃ d, .defined d ∈ added id ∧ symbol = .defined (d.within (t.get id).name)
  file : ∀ id ≠ 0, ∀ d, .defined d ∈ added id → d.definedIn = (t.get id).path
  placed : ∀ i ≠ 0, ∀ j ≠ 0, ∀ d e p, .defined d ∈ t'.table i → .defined e ∈ t'.table j → d.specPath = some p →
    e.specPath = some p → i = j ∧ d = e
  provided : ∀ id ≠ 0, ∀ name source, .imported name source ∈ added id →
    ∃ d, .defined d ∈ t.table 0 ∧ d.localName = source
  once : ∀ id ≠ 0, ∀ name name' source, .imported name source ∈ t'.table id → .imported name' source ∈ t'.table id →
    name = name'

/-- **A run stays sound when new symbols fit.** -/
theorem Sound.grow {t t' : Tree} {added : Id → Table} (h : t.Sound) (hg : Grown t t' added) (hf : Fits t t' added) :
    t'.Sound where
  pos := hg.length.symm ▸ h.pos
  root := (hg.enclosing 0).trans h.root
  enclosed id hid := (hg.enclosing id).trans (h.enclosed id ((hg.isModule id).1 hid))
  dotless id h0 symbol hs := by
    rw [hg.table, List.mem_append] at hs
    exact hs.elim (h.dotless id h0 symbol) (hf.dotless id h0 symbol)
  nodup id := by
    rw [hg.table]
    exact hf.nodup id
  copied id h0 d hd := by
    rw [hg.table, List.mem_append] at hd
    rw [hg.name, hg.table, List.mem_append]
    exact hd.imp (h.copied id h0 d) (hf.copied id h0 d)
  copies symbol hs := by
    rw [hg.table, List.mem_append] at hs
    rcases hs with hs | hs
    · obtain ⟨id, h0, d, hd, heq⟩ := h.copies symbol hs
      exact ⟨id, h0, d, hg.mem hd, by rw [hg.name, heq]⟩
    · obtain ⟨id, h0, d, hd, heq⟩ := hf.copies symbol hs
      exact ⟨id, h0, d, hg.mem_added hd, by rw [hg.name, heq]⟩
  file id h0 d hd := by
    rw [hg.table, List.mem_append] at hd
    rw [hg.path]
    exact hd.elim (h.file id h0 d) (hf.file id h0 d)
  placed := hf.placed
  provided id h0 name source hs := by
    rw [hg.table, List.mem_append] at hs
    obtain ⟨d, hd, hsource⟩ := hs.elim (h.provided id h0 name source) (hf.provided id h0 name source)
    exact ⟨d, hg.mem hd, hsource⟩
  once := hf.once

/-! ## A new module -/

section AddScope

variable {t : Tree} {name path : String}

theorem Sound.get_addScope (h : t.Sound) (name path : String) (id : Id) :
    (t.addScope 0 name (some path)).1.get id =
      if id = t.scopes.length then ⟨name, some path, [0], []⟩ else t.get id := by
  rw [Tree.get_addScope, outwards, h.root]

theorem Sound.get_addScope_of_mem (h : t.Sound) (name path : String) {symbol : Symbol} {id : Id}
    (hs : symbol ∈ t.table id) : (t.addScope 0 name (some path)).1.get id = t.get id := by
  rw [h.get_addScope, if_neg (Nat.ne_of_lt (lt_of_mem hs))]

/-- **A run stays sound when a module is added.** -/
theorem Sound.addScope (h : t.Sound) (name path : String) : (t.addScope 0 name (some path)).1.Sound := by
  have htable := t.table_addScope 0 name (some path)
  have hlen := t.length_addScope 0 name (some path)
  constructor
  case pos => exact hlen ▸ Nat.succ_pos _
  case root => rw [h.get_addScope, if_neg (Nat.ne_of_lt h.pos), h.root]
  case enclosed =>
    rintro id ⟨h0, hid⟩
    rw [h.get_addScope]
    rw [hlen] at hid
    by_cases hlast : id = t.scopes.length
    · rw [if_pos hlast]
    · rw [if_neg hlast]
      exact h.enclosed id ⟨h0, Nat.lt_of_le_of_ne (Nat.le_of_lt_succ hid) hlast⟩
  case dotless => simpa only [htable] using h.dotless
  case nodup => simpa only [htable] using h.nodup
  case copied =>
    intro id h0 d hd
    rw [htable] at hd ⊢
    rw [h.get_addScope_of_mem name path hd]
    exact h.copied id h0 d hd
  case copies =>
    intro symbol hs
    rw [htable] at hs
    obtain ⟨id, h0, d, hd, rfl⟩ := h.copies symbol hs
    refine ⟨id, h0, d, (htable id).symm ▸ hd, ?_⟩
    rw [h.get_addScope_of_mem name path hd]
  case file =>
    intro id h0 d hd
    rw [htable] at hd
    rw [h.get_addScope_of_mem name path hd]
    exact h.file id h0 d hd
  case placed => simpa only [htable] using h.placed
  case provided => simpa only [htable] using h.provided
  case once => simpa only [htable] using h.once

end AddScope

/-! ## A new definition -/

section Define

variable {t t' : Tree} {id : Id} {name : String} {place : Option String} {isPublic : Bool} {d : Definition}

theorem taken_enter (hid : t.IsModule id) (symbol : Symbol) (name : String) :
    (t.enter id symbol).taken 0 name = t.taken 0 name := by
  unfold taken
  rw [(grown_enter hid.2 symbol).table, if_neg (Ne.symm hid.1), List.append_nil]

/-- **How a definition is entered**: its name may be taken in the module, or its qualified name in the root; then it stays in
the module. -/
theorem Sound.enterOutwards_eq (h : t.Sound) (hid : t.IsModule id) (d : Definition) :
    t.enterOutwards (t.outwards id) d =
      if t.taken id d.localName then (t, some ⟨d.localName, (t.get id).name⟩)
      else if t.taken 0 (qualify (t.get id).name d.localName) then
        (t.enter id (.defined d), some ⟨qualify (t.get id).name d.localName, (t.get 0).name⟩)
      else ((t.enter id (.defined d)).enter 0 (.defined (d.within (t.get id).name)), none) := by
  have hroot : ((t.enter id (.defined d)).get 0).name = (t.get 0).name := (grown_enter hid.2 (.defined d)).name 0
  rw [outwards, h.enclosed id hid, enterOutwards, enterOutwards, enterOutwards, taken_enter hid, hroot]
  rfl

/-- **How a definition goes.** -/
theorem Sound.define_eq (h : t.Sound) (hid : t.IsModule id) :
    t.define id name place isPublic =
      if t.taken id name then (t, .error ⟨name, (t.get id).name⟩)
      else if t.taken 0 (qualify (t.get id).name name) then
        (t.enter id (.defined (t.defining id name place isPublic)),
          .error ⟨qualify (t.get id).name name, (t.get 0).name⟩)
      else
        ((t.enter id (.defined (t.defining id name place isPublic))).enter 0
            (.defined ((t.defining id name place isPublic).within (t.get id).name)),
          .ok (t.defining id name place isPublic)) := by
  have henter := h.enterOutwards_eq hid (t.defining id name place isPublic)
  unfold defining at henter
  unfold define
  dsimp only at henter ⊢
  rw [henter]
  by_cases hlocal : t.taken id name = true
  · rw [if_pos hlocal, if_pos hlocal]
  · rw [if_neg hlocal, if_neg hlocal]
    by_cases hglobal : t.taken 0 (qualify (t.get id).name name) = true
    · rw [if_pos hglobal, if_pos hglobal]
      rfl
    · rw [if_neg hglobal, if_neg hglobal]
      rfl

/-- What a definition adds to the tables. -/
def definedSymbols (t : Tree) (id : Id) (d : Definition) : Id → Table := fun j =>
  if j = id then [.defined d] else if j = 0 then [.defined (d.within (t.get id).name)] else []

theorem Sound.define_ok (h : t.Sound) (hid : t.IsModule id) (hd : t.define id name place isPublic = (t', .ok d)) :
    d = t.defining id name place isPublic ∧ name ∉ (t.table id).map Symbol.localName ∧
      qualify (t.get id).name name ∉ (t.table 0).map Symbol.localName ∧ Grown t t' (definedSymbols t id d) := by
  rw [h.define_eq hid] at hd
  by_cases hlocal : t.taken id name = true
  · rw [if_pos hlocal] at hd
    cases hd
  · rw [if_neg hlocal] at hd
    by_cases hglobal : t.taken 0 (qualify (t.get id).name name) = true
    · rw [if_pos hglobal] at hd
      cases hd
    · rw [if_neg hglobal] at hd
      cases hd
      refine ⟨rfl, fun hm => hlocal (Table.taken_eq_true_iff.2 hm), fun hm => hglobal (Table.taken_eq_true_iff.2 hm), ?_⟩
      have h1 := grown_enter hid.2 (.defined (t.defining id name place isPublic))
      have h2 := grown_enter (h1.length.symm ▸ h.pos)
        (.defined ((t.defining id name place isPublic).within (t.get id).name))
      refine ⟨(h1.trans h2).length, fun j => ?_⟩
      rw [(h1.trans h2).get]
      unfold definedSymbols
      by_cases hj : j = id
      · simp [hj, hid.1]
      · simp [hj]

theorem Sound.defined_of_define (h : t.Sound) (hid : t.IsModule id) (hd : t.define id name place isPublic = (t', .ok d))
    {j : Id} (hj : j ≠ 0) {symbol : Symbol} (hs : symbol ∈ t'.table j) :
    symbol ∈ t.table j ∨ (j = id ∧ symbol = .defined d) := by
  obtain ⟨-, -, -, hg⟩ := h.define_ok hid hd
  rw [hg.table, List.mem_append] at hs
  unfold definedSymbols at hs
  by_cases hjid : j = id
  · rw [if_pos hjid, List.mem_singleton] at hs
    exact hs.imp_right fun hs => ⟨hjid, hs⟩
  · rw [if_neg hjid, if_neg hj] at hs
    exact .inl (hs.resolve_right List.not_mem_nil)

theorem Sound.define_error (h : t.Sound) (hid : t.IsModule id) {c : Conflict}
    (hd : t.define id name place isPublic = (t', .error c)) :
    t' = t ∨ name ∉ (t.table id).map Symbol.localName ∧
      t' = t.enter id (.defined (t.defining id name place isPublic)) := by
  rw [h.define_eq hid] at hd
  by_cases hlocal : t.taken id name = true
  · rw [if_pos hlocal] at hd
    cases hd
    exact .inl rfl
  · rw [if_neg hlocal] at hd
    split at hd
    · cases hd
      exact .inr ⟨fun hm => hlocal (Table.taken_eq_true_iff.2 hm), rfl⟩
    · cases hd

/-- Whether no definition of a module is made from the schema at a place. -/
def Vacant (t : Tree) (place : Option String) : Prop :=
  ∀ id ≠ 0, ∀ d, .defined d ∈ t.table id → ∀ p, place = some p → d.specPath ≠ some p

theorem vacant_none (t : Tree) : t.Vacant none := nofun

/-- One more definition, for a place that has none, leaves one for each place. -/
theorem Sound.placed_of_vacant (h : t.Sound) (hplace : t.Vacant d.specPath)
    (hcases : ∀ j ≠ 0, ∀ symbol ∈ t'.table j, symbol ∈ t.table j ∨ (j = id ∧ symbol = .defined d)) :
    ∀ i ≠ 0, ∀ j ≠ 0, ∀ e f p, .defined e ∈ t'.table i → .defined f ∈ t'.table j → e.specPath = some p →
      f.specPath = some p → i = j ∧ e = f := by
  intro i hi j hj e f p he hf hep hfp
  rcases hcases i hi _ he with he | ⟨rfl, heq⟩
  · rcases hcases j hj _ hf with hf | ⟨rfl, heq⟩
    · exact h.placed i hi j hj e f p he hf hep hfp
    · cases heq
      exact absurd hep (hplace i hi e he p hfp)
  · cases heq
    rcases hcases j hj _ hf with hf | ⟨rfl, heq⟩
    · exact absurd hfp (hplace j hj f hf p hep)
    · cases heq
      exact ⟨rfl, rfl⟩

/-- The new symbols of a definition fit, if its place has no definition. -/
theorem Sound.fits_define (h : t.Sound) (hid : t.IsModule id) (hname : Dotless name) (hplace : t.Vacant place)
    (hd : t.define id name place isPublic = (t', .ok d)) : Fits t t' (definedSymbols t id d) := by
  have hcases : ∀ j ≠ 0, ∀ symbol ∈ t'.table j, symbol ∈ t.table j ∨ (j = id ∧ symbol = .defined d) :=
    fun j h0 symbol hs => h.defined_of_define hid hd h0 hs
  obtain ⟨rfl, hlocal, hglobal, hg⟩ := h.define_ok hid hd
  have hadded : ∀ {j symbol}, j ≠ 0 → symbol ∈ definedSymbols t id (t.defining id name place isPublic) j →
      j = id ∧ symbol = .defined (t.defining id name place isPublic) := by
    intro j symbol h0 hs
    unfold definedSymbols at hs
    rw [if_neg h0] at hs
    split at hs
    · exact ⟨‹j = id›, List.mem_singleton.1 hs⟩
    · cases hs
  have hroot : definedSymbols t id (t.defining id name place isPublic) 0 =
      [.defined ((t.defining id name place isPublic).within (t.get id).name)] := by
    unfold definedSymbols
    rw [if_neg (Ne.symm hid.1), if_pos rfl]
  constructor
  case dotless =>
    intro j h0 symbol hs
    obtain ⟨-, rfl⟩ := hadded h0 hs
    exact hname
  case nodup =>
    intro j
    unfold definedSymbols
    split
    · rename_i hj
      rw [hj]
      exact Table.nodup_concat (h.nodup id) hlocal
    · split
      · rename_i hj
        rw [hj]
        exact Table.nodup_concat (h.nodup 0) hglobal
      · rw [List.append_nil]
        exact h.nodup j
  case copied =>
    intro j h0 e he
    obtain ⟨rfl, heq⟩ := hadded h0 he
    cases heq
    exact hroot ▸ List.mem_cons_self
  case copies =>
    intro symbol hs
    rw [hroot, List.mem_singleton] at hs
    refine ⟨id, hid.1, _, ?_, hs⟩
    rw [definedSymbols, if_pos rfl]
    exact List.mem_cons_self
  case file =>
    intro j h0 e he
    obtain ⟨rfl, heq⟩ := hadded h0 he
    cases heq
    rfl
  case placed => exact h.placed_of_vacant hplace hcases
  case provided =>
    intro j h0 local' source hs
    cases (hadded h0 hs).2
  case once =>
    intro j h0 n n' source hn hn'
    rcases hcases j h0 _ hn with hn | ⟨-, heq⟩
    · rcases hcases j h0 _ hn' with hn' | ⟨-, heq⟩
      · exact h.once j h0 n n' source hn hn'
      · cases heq
    · cases heq

/-- **A run stays sound when a module defines a name for a place that has no definition.** -/
theorem Sound.define (h : t.Sound) (hid : t.IsModule id) (hname : Dotless name) (hplace : t.Vacant place)
    (hd : t.define id name place isPublic = (t', .ok d)) : t'.Sound := by
  obtain ⟨-, -, -, hg⟩ := h.define_ok hid hd
  exact h.grow hg (h.fits_define hid hname hplace hd)

end Define
end Tree
end Scope
end TypedClient
