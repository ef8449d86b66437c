import TypedClient.Proofs.Scope.Entering
/-!
# Edits — runs of operations on a tree of scopes

A tree is made from a root by operations in any order, on any of its scopes: scopes are added, symbols are defined and
symbols are imported, and an operation may report a conflict.  Whatever an operation does, a table stays as it is or gets
one new symbol at its end, under a free name and, if that is an import, from a source that no import of the table has
(`Edit.apply_grows`).  So the tables of a run only grow, no name and no source comes twice, and the first symbol that
provides a source stays the first: an import that succeeded is found again ever after (`tables_stable`).
-/
namespace TypedClient
namespace Scope

/-! ## What can happen to a table -/

namespace Table

/-- A table in which no name comes twice, and no source of an import. -/
structure Tidy (table : Table) : Prop where
  names : (table.map Symbol.localName).Nodup
  sources : (table.filterMap Symbol.source?).Nodup

/-- **What an operation does to a table**: nothing, or a new symbol comes to its end. -/
inductive Grows (table : Table) : Table → Prop
  | same : Grows table table
  | entered (symbol : Symbol) (hname : table.taken symbol.localName = false)
      (hsource : ∀ source, symbol.source? = some source → source ∉ table.filterMap Symbol.source?) :
      Grows table (table ++ [symbol])

variable {table table' : Table} {symbol : Symbol} {name source : String}

theorem Tidy.grows (ht : table.Tidy) (h : Grows table table') : table'.Tidy := by
  cases h with
  | same => exact ht
  | entered symbol hname hsource =>
    refine ⟨nodup_concat ht.names fun hmem => ?_, ?_⟩
    · rw [taken_eq_true_iff.2 hmem] at hname
      cases hname
    · rw [List.filterMap_append, List.nodup_append_comm]
      cases hs : symbol.source? with
      | none => simpa [hs] using ht.sources
      | some source => simpa [hs] using And.intro (hsource source hs) ht.sources

/-- A name leads to the symbol of that name. -/
theorem Tidy.get?_eq_some_iff (ht : table.Tidy) : table.get? name = some symbol ↔ symbol ∈ table ∧ symbol.localName = name := by
  constructor
  · intro h
    exact ⟨List.mem_of_find?_eq_some h, by simpa using List.find?_some h⟩
  · rintro ⟨hmem, rfl⟩
    exact get?_of_mem ht.names hmem

/-- No import of a table has a source that no symbol of it provides. -/
theorem source_not_mem (h : table.find? (·.provides source) = none) : source ∉ table.filterMap Symbol.source? := by
  intro hmem
  obtain ⟨symbol, hsymbol, hsource⟩ := List.mem_filterMap.1 hmem
  have hnot := List.find?_eq_none.1 h symbol hsymbol
  cases symbol with
  | defined d => cases hsource
  | imported name other =>
    cases hsource
    exact hnot (beq_self_eq_true source)

end Table

/-! ## Operations -/

/-- An operation on a scope. -/
inductive Edit where
  | addScope (parent : Id) (name : String) (path : Option String)
  | define (id : Id) (name : String) (place : Option String) (isPublic : Bool)
  | importSymbol (id : Id) (source : String) (wanted : Option String)
  deriving DecidableEq

/-- The scope that an operation is called on. -/
def Edit.scope : Edit → Id
  | .addScope parent _ _ => parent
  | .define id _ _ _ => id
  | .importSymbol id _ _ => id

/-- What an operation makes of a tree, and the conflict that it reports. -/
def Edit.apply (t : Tree) : Edit → Tree × Option Conflict
  | .addScope parent name path => ((t.addScope parent name path).1, none)
  | .define id name place isPublic =>
    match t.define id name place isPublic with
    | (t', .ok _) => (t', none)
    | (t', .error conflict) => (t', some conflict)
  | .importSymbol id source wanted =>
    match t.importSymbol id source wanted with
    | (t', .ok _) => (t', none)
    | (t', .error conflict) => (t', some conflict)

namespace Tree

/-- A tree of a root alone. -/
def planted (name : String) (path : Option String) : Tree := ⟨[⟨name, path, [], []⟩]⟩

/-- **Runs of operations**, each on a scope that is there, and each with the conflict that it reported. -/
inductive Edits : Tree → List (Edit × Option Conflict) → Tree → Prop
  | done {t} : Edits t [] t
  | next {t u edit rest} (hscope : edit.scope < t.scopes.length) (hrest : Edits (edit.apply t).1 rest u) :
      Edits t ((edit, (edit.apply t).2) :: rest) u

/-! ## What an operation does to a tree -/

/-- **One tree is another after some operations**: the scopes of the other are in it as they were, with more symbols perhaps
at the ends of their tables. -/
structure Extended (t t' : Tree) : Prop where
  length : t.scopes.length ≤ t'.scopes.length
  name : ∀ id < t.scopes.length, (t'.get id).name = (t.get id).name
  path : ∀ id < t.scopes.length, (t'.get id).path = (t.get id).path
  enclosing : ∀ id < t.scopes.length, (t'.get id).enclosing = (t.get id).enclosing
  table : ∀ id, t.table id <+: t'.table id

section Extended

variable {t t' t'' : Tree} {id outer : Id} {added : Id → Table}

theorem Extended.refl (t : Tree) : Extended t t :=
  ⟨Nat.le_refl _, fun _ _ => rfl, fun _ _ => rfl, fun _ _ => rfl, fun _ => List.prefix_refl _⟩

theorem Extended.trans (h : Extended t t') (h' : Extended t' t'') : Extended t t'' := by
  have hlt : ∀ id, id < t.scopes.length → id < t'.scopes.length := fun id hid => Nat.lt_of_lt_of_le hid h.length
  exact ⟨Nat.le_trans h.length h'.length, fun id hid => (h'.name id (hlt id hid)).trans (h.name id hid),
    fun id hid => (h'.path id (hlt id hid)).trans (h.path id hid),
    fun id hid => (h'.enclosing id (hlt id hid)).trans (h.enclosing id hid), fun id => (h.table id).trans (h'.table id)⟩

theorem Grown.extended (h : Grown t t' added) : Extended t t' :=
  ⟨Nat.le_of_eq h.length.symm, fun id _ => h.name id, fun id _ => h.path id, fun id _ => h.enclosing id,
    fun id => h.table id ▸ List.prefix_append _ _⟩

theorem extended_addScope (t : Tree) (parent : Id) (name : String) (path : Option String) :
    Extended t (t.addScope parent name path).1 := by
  have hget : ∀ id < t.scopes.length, (t.addScope parent name path).1.get id = t.get id := fun id hid => by
    rw [get_addScope, if_neg (Nat.ne_of_lt hid)]
  refine ⟨by rw [length_addScope]; exact Nat.le_succ _, fun id hid => by rw [hget id hid], fun id hid => by rw [hget id hid],
    fun id hid => by rw [hget id hid], fun id => ?_⟩
  exact (t.table_addScope parent name path id).symm ▸ List.prefix_refl _

theorem Extended.outwards (h : Extended t t') (hid : id < t.scopes.length) : t'.outwards id = t.outwards id := by
  rw [Tree.outwards, Tree.outwards, h.enclosing id hid]

theorem Rooted.grown (h : t.Rooted) (hg : Grown t t' added) : t'.Rooted := by
  refine ⟨hg.length ▸ h.pos, by rw [hg.enclosing, h.root], fun id h0 hid => ?_⟩
  obtain ⟨parent, hlt, heq⟩ := h.inside id h0 (hg.length ▸ hid)
  exact ⟨parent, hlt, by rw [hg.enclosing, heq, outwards, outwards, hg.enclosing]⟩

theorem Rooted.addScope (h : t.Rooted) {parent : Id} (hparent : parent < t.scopes.length) (name : String)
    (path : Option String) : (t.addScope parent name path).1.Rooted := by
  have hx := extended_addScope t parent name path
  refine ⟨Nat.lt_of_lt_of_le h.pos hx.length, (hx.enclosing 0 h.pos).trans h.root, fun id h0 hid => ?_⟩
  rw [length_addScope] at hid
  by_cases hlast : id = t.scopes.length
  · refine ⟨parent, hlast ▸ hparent, ?_⟩
    rw [get_addScope, if_pos hlast, hx.outwards hparent]
  · have hlt : id < t.scopes.length := by omega
    obtain ⟨p, hp, heq⟩ := h.inside id h0 hlt
    exact ⟨p, hp, by rw [hx.enclosing id hlt, heq, hx.outwards (Nat.lt_trans hp hlt)]⟩

end Extended

section Operations

variable {t t' u : Tree} {id outer : Id} {name source : String} {place : Option String} {isPublic : Bool} {d : Definition}

theorem define_eq (t : Tree) (id : Id) (name : String) (place : Option String) (isPublic : Bool) :
    (Edit.define id name place isPublic).apply t =
      t.enterOutwards (t.outwards id) (t.defining id name place isPublic) := by
  unfold Edit.apply define defining
  dsimp only
  generalize t.enterOutwards _ _ = r
  obtain ⟨t', conflict⟩ := r
  cases conflict <;> rfl

/-- An operation that defines a symbol, scope by scope. -/
theorem Rooted.define_entered (h : t.Rooted) (hid : id < t.scopes.length) :
    Entered t (t.outwards id) (t.defining id name place isPublic) ((Edit.define id name place isPublic).apply t) := by
  rw [define_eq]
  exact enterOutwards_entered (h.nodup_outwards hid) (h.lt_of_mem hid)

/-- **What importing a symbol does**: one that is provided already is used again; otherwise it comes under a free name, or
its name is taken. -/
theorem importSymbol_cases (t : Tree) (id : Id) (source : String) (wanted : Option String) :
    (∃ symbol, (t.table id).find? (·.provides source) = some symbol ∧
      t.importSymbol id source wanted = (t, .ok symbol.localName)) ∨
    ((t.table id).find? (·.provides source) = none ∧
      ((∃ name, t.taken id name = false ∧
        t.importSymbol id source wanted = (t.enter id (.imported name source), .ok name)) ∨
      ∃ conflict, t.importSymbol id source wanted = (t, .error conflict))) := by
  unfold importSymbol
  cases hf : (t.table id).find? (·.provides source) with
  | some symbol => exact .inl ⟨symbol, rfl, rfl⟩
  | none =>
    refine .inr ⟨rfl, ?_⟩
    cases wanted with
    | none => exact .inl ⟨_, Table.taken_freeName _ _, rfl⟩
    | some name =>
      dsimp only
      split
      · exact .inr ⟨_, rfl⟩
      · rename_i hfree
        exact .inl ⟨name, Bool.not_eq_true _ ▸ hfree, rfl⟩

theorem Entered.extended {chain : List Id} {r : Tree × Option Conflict} (h : Entered t chain d r) : Extended t r.1 := by
  cases h with
  | through _ hg => exact hg.extended
  | blocked _ _ _ _ _ _ hg => exact hg.extended

theorem Entered.rooted {chain : List Id} {r : Tree × Option Conflict} (ht : t.Rooted) (h : Entered t chain d r) :
    r.1.Rooted := by
  cases h with
  | through _ hg => exact ht.grown hg
  | blocked _ _ _ _ _ _ hg => exact ht.grown hg

/-- A walk enters a definition where its name is free. -/
theorem grows_copies {chain through : List Id} (hfree : ∀ id ∈ through, ¬ t.hasName chain d id)
    (hg : Grown t t' (t.copies chain d through)) (outer : Id) : (t.table outer).Grows (t'.table outer) := by
  rw [hg.table]
  unfold copies
  split
  · rename_i hmem
    exact .entered _ (Bool.not_eq_true _ ▸ hfree outer hmem) nofun
  · rw [List.append_nil]
    exact .same

theorem Entered.grows {chain : List Id} {r : Tree × Option Conflict} (h : Entered t chain d r) (outer : Id) :
    (t.table outer).Grows (r.1.table outer) := by
  cases h with
  | through hfree hg => exact grows_copies hfree hg outer
  | blocked _ _ _ _ hfree _ hg => exact grows_copies hfree hg outer

theorem grows_enter (hid : id < t.scopes.length) {symbol : Symbol} (hname : t.taken id symbol.localName = false)
    (hsource : ∀ source, symbol.source? = some source → source ∉ (t.table id).filterMap Symbol.source?) (outer : Id) :
    (t.table outer).Grows ((t.enter id symbol).table outer) := by
  rw [(grown_enter hid symbol).table]
  by_cases houter : outer = id
  · subst houter
    rw [if_pos rfl]
    exact .entered symbol hname hsource
  · rw [if_neg houter, List.append_nil]
    exact .same

/-- **A step of a run**: the scopes stay in a tree, none is lost, and every table stays or gets one new symbol. -/
theorem Rooted.apply (h : t.Rooted) {edit : Edit} (hscope : edit.scope < t.scopes.length) :
    (edit.apply t).1.Rooted ∧ Extended t (edit.apply t).1 ∧
      ∀ outer, (t.table outer).Grows ((edit.apply t).1.table outer) := by
  cases edit with
  | addScope parent name path =>
    refine ⟨h.addScope hscope name path, extended_addScope t parent name path, fun outer => ?_⟩
    have htable : ((Edit.addScope parent name path).apply t).1.table outer = t.table outer :=
      t.table_addScope parent name path outer
    rw [htable]
    exact .same
  | define id name place isPublic =>
    have hentered : Entered t (t.outwards id) (t.defining id name place isPublic) _ := h.define_entered hscope
    exact ⟨hentered.rooted h, hentered.extended, hentered.grows⟩
  | importSymbol id source wanted =>
    rcases t.importSymbol_cases id source wanted with ⟨symbol, -, heq⟩ | ⟨hnone, ⟨name, hfree, heq⟩ | ⟨conflict, heq⟩⟩
    · rw [Edit.apply, heq]
      exact ⟨h, .refl t, fun _ => .same⟩
    · rw [Edit.apply, heq]
      have hg := grown_enter hscope (.imported name source)
      refine ⟨h.grown hg, hg.extended, grows_enter hscope hfree ?_⟩
      intro other hother
      cases hother
      exact Table.source_not_mem hnone
    · rw [Edit.apply, heq]
      exact ⟨h, .refl t, fun _ => .same⟩

/-- What an import has brought provides its source. -/
theorem importSymbol_provides (hid : id < t.scopes.length) {wanted : Option String}
    (h : t.importSymbol id source wanted = (u, .ok name)) :
    ∃ symbol, (u.table id).find? (·.provides source) = some symbol ∧ symbol.localName = name := by
  rcases t.importSymbol_cases id source wanted with ⟨symbol, hfound, heq⟩ | ⟨hnone, ⟨n, -, heq⟩ | ⟨conflict, heq⟩⟩
  · cases heq.symm.trans h
    exact ⟨symbol, hfound, rfl⟩
  · -- nothing before it provides the source, so it is the first one
    cases heq.symm.trans h
    refine ⟨.imported name source, ?_, rfl⟩
    rw [(grown_enter hid _).table, if_pos rfl, List.find?_append, hnone]
    simp [Symbol.provides]
  · cases heq.symm.trans h

theorem importSymbol_of_provides {symbol : Symbol} (h : (t.table id).find? (·.provides source) = some symbol)
    (wanted : Option String) : t.importSymbol id source wanted = (t, .ok symbol.localName) := by
  unfold importSymbol
  rw [h]

end Operations

/-! ## Runs -/

section Runs

variable {t u : Tree} {history : List (Edit × Option Conflict)} {name : String} {path : Option String}

theorem table_planted (id : Id) : (planted name path).table id = [] := by
  unfold planted table get
  cases id <;> rfl

theorem rooted_planted : (planted name path).Rooted :=
  ⟨Nat.zero_lt_one, rfl, fun _ h0 hid => absurd (Nat.lt_one_iff.1 hid) h0⟩

theorem Edits.rooted (hrun : Edits t history u) (h : t.Rooted) : u.Rooted := by
  induction hrun with
  | done => exact h
  | next hscope _ ih => exact ih (h.apply hscope).1

theorem Edits.extended (hrun : Edits t history u) (h : t.Rooted) : Extended t u := by
  induction hrun with
  | done => exact .refl _
  | next hscope _ ih =>
    obtain ⟨hrooted, hextended, -⟩ := h.apply hscope
    exact hextended.trans (ih hrooted)

theorem Edits.tidy (hrun : Edits t history u) (h : t.Rooted) (ht : ∀ id, (t.table id).Tidy) (id : Id) :
    (u.table id).Tidy := by
  induction hrun with
  | done => exact ht id
  | next hscope _ ih =>
    obtain ⟨hrooted, -, hgrows⟩ := h.apply hscope
    exact ih hrooted fun outer => (ht outer).grows (hgrows outer)

theorem Edits.tidy_planted (hrun : Edits (planted name path) history t) (id : Id) : (t.table id).Tidy :=
  hrun.tidy rooted_planted (fun id => table_planted id ▸ ⟨List.nodup_nil, List.nodup_nil⟩) id

/-- What provides a source goes on to do so, since the first symbol that does stays the first. -/
theorem Edits.importSymbol_again (hrun : Edits t history u) (h : t.Rooted) {id : Id} {source : String} {symbol : Symbol}
    (hfound : (t.table id).find? (·.provides source) = some symbol) (wanted : Option String) :
    u.importSymbol id source wanted = (u, .ok symbol.localName) :=
  importSymbol_of_provides (((hrun.extended h).table id).find?_eq_some hfound) wanted

/-- **The tables of a run only grow, and imports are stable.**  Every operation leaves the symbols of every table in their
places, whether it reports a conflict or not; a name leads to the one symbol of that name; no source is imported twice
into a scope; and once a source is imported, it is there under its name for all later imports, whatever name they want. -/
theorem tables_stable (hrun : Edits (planted name path) history t) :
    (∀ {later u}, Edits t later u → ∀ id, t.table id <+: u.table id) ∧
    (∀ id, ((t.table id).map Symbol.localName).Nodup ∧
      (∀ n symbol, (t.table id).get? n = some symbol ↔ symbol ∈ t.table id ∧ symbol.localName = n) ∧
      ((t.table id).filterMap Symbol.source?).Nodup) ∧
    (∀ {id source wanted n u}, id < t.scopes.length → t.importSymbol id source wanted = (u, .ok n) →
      ∀ {later v}, Edits u later v → ∀ wanted', v.importSymbol id source wanted' = (v, .ok n)) := by
  have hrooted := hrun.rooted rooted_planted
  refine ⟨fun hlater => (hlater.extended hrooted).table, fun id => ?_, ?_⟩
  · have htidy := hrun.tidy_planted id
    exact ⟨htidy.names, fun _ _ => htidy.get?_eq_some_iff, htidy.sources⟩
  · intro id source wanted n u hid himport later v hlater wanted'
    obtain ⟨symbol, hfound, rfl⟩ := importSymbol_provides hid himport
    -- the import is itself an operation, and a definition that comes later stands behind what it found
    have hu : ((Edit.importSymbol id source wanted).apply t).1 = u := by
      rw [Edit.apply, himport]
    have hscope : (Edit.importSymbol id source wanted).scope < t.scopes.length := hid
    exact hlater.importSymbol_again (hu ▸ (hrooted.apply hscope).1) hfound wanted'

/-- A root with the scope of one module in it. -/
def oneModule : Tree := ((planted "root" none).addScope 0 "definitions" (some "definitions.ts")).1

/-- The root imports `definitions.Widget` as `W`, and then a definition comes to it under that very name. -/
def importedFirst : Tree :=
  ((oneModule.importSymbol 0 "definitions.Widget" (some "W")).1.define 1 "Widget" (some "#/Widget") true).1

/-- A definition does not come before the import of its name. -/
theorem importedFirst_stable :
    importedFirst.taken 0 "definitions.Widget" = true ∧
      importedFirst.importSymbol 0 "definitions.Widget" none = (importedFirst, .ok "W") := by
  have hrun : Edits (planted "root" none) [(.addScope 0 "definitions" (some "definitions.ts"), none)] oneModule :=
    .next (by decide) .done
  have hlater : Edits (oneModule.importSymbol 0 "definitions.Widget" (some "W")).1
      [(.define 1 "Widget" (some "#/Widget") true, none)] importedFirst := .next (by decide) .done
  have himport : oneModule.importSymbol 0 "definitions.Widget" (some "W") =
      ((oneModule.importSymbol 0 "definitions.Widget" (some "W")).1, .ok "W") := rfl
  exact ⟨by decide +kernel, (tables_stable hrun).2.2 (by decide) himport hlater none⟩

end Runs
end Tree
end Scope
end TypedClient
