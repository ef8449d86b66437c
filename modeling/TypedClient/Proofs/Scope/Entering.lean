import TypedClient.Proofs.Scope.Growth
/-!
# Entering — a definition on its way outwards

A definition goes from its own scope to those around it, the nearest first, and takes the name of each scope that it
leaves in front of its own.  So a scope around knows it by the names of the scopes on the way there, from the outermost to
the innermost, and then by its own (`nameIn`).  The walk ends at the first scope that has such a name already; the scopes
before that one, and no others, have the definition then (`enterOutwards_entered`).

A qualified name is put together from the other end, the name of a scope in the one around it first.  It is the name that
the root knows the definition by (`globalName_eq`).
-/
namespace TypedClient
namespace Scope
namespace Tree

/-! ## Names with dots -/

/-- The names of scopes, the last one first, and a name behind them, with dots between. -/
def dotted (t : Tree) (ids : List Id) (name : String) : String :=
  ".".intercalate ((ids.reverse.map fun id => (t.get id).name) ++ [name])

/-- **The name that a scope around knows a name by**: the names of the scopes on the way from there, and the name itself. -/
def nameIn (t : Tree) (outer id : Id) (name : String) : String :=
  t.dotted ((t.outwards id).takeWhile (· ≠ outer)) name

section Dotted

variable {t t' : Tree} {ids : List Id} {id : Id} {name : String}

theorem dotted_nil : t.dotted [] name = name := by
  simp [dotted]

/-- The name of the innermost scope can be put before the name first. -/
theorem dotted_cons : t.dotted (id :: ids) name = t.dotted ids (qualify (t.get id).name name) := by
  unfold dotted qualify
  rw [List.reverse_cons, List.map_append, List.append_assoc]
  cases ids.reverse.map fun id => (t.get id).name with
  | nil => simp
  | cons first rest =>
    rw [String.intercalate_append_of_ne_nil (List.cons_ne_nil _ _) (by simp),
      String.intercalate_append_of_ne_nil (List.cons_ne_nil _ _) (by simp)]
    simp

/-- The name can be put behind that of the innermost scope last. -/
theorem dotted_cons' : t.dotted (id :: ids) name = qualify (t.dotted ids (t.get id).name) name := by
  unfold dotted qualify
  rw [List.reverse_cons, List.map_append, String.intercalate_append_of_ne_nil (by simp) (List.cons_ne_nil _ _)]
  simp

theorem dotted_congr (h : ∀ id ∈ ids, (t'.get id).name = (t.get id).name) : t'.dotted ids name = t.dotted ids name := by
  unfold dotted
  rw [List.map_congr_left fun id hid => h id (List.mem_reverse.1 hid)]

theorem qualifiedName_cons (h : ids ≠ []) :
    t.qualifiedName (id :: ids) name = qualify (t.qualifiedName ids (t.get id).name) name := by
  cases ids with
  | nil => exact absurd rfl h
  | cons parent outer => rfl

theorem qualifiedName_concat (root : Id) : t.qualifiedName (ids ++ [root]) name = t.dotted ids name := by
  induction ids generalizing name with
  | nil => exact dotted_nil.symm
  | cons id ids ih =>
    rw [List.cons_append, qualifiedName_cons (by simp), ih, dotted_cons']

end Dotted

/-! ## The walk -/

/-- A definition as a scope of the chain holds it that it is taken along. -/
def copyIn (t : Tree) (chain : List Id) (d : Definition) (outer : Id) : Definition :=
  { d with localName := t.dotted (chain.takeWhile (· ≠ outer)) d.localName }

/-- Whether a scope of the chain has the name that it would know a definition by. -/
def hasName (t : Tree) (chain : List Id) (d : Definition) (outer : Id) : Prop :=
  t.taken outer (t.copyIn chain d outer).localName = true

/-- What the walk adds to the tables, when it goes through some scopes of the chain. -/
def copies (t : Tree) (chain : List Id) (d : Definition) (through : List Id) : Id → Table := fun outer =>
  if outer ∈ through then [.defined (t.copyIn chain d outer)] else []

/-- **How a definition goes outwards**: through all scopes of a chain, or to one that has its name already. -/
inductive Entered (t : Tree) (chain : List Id) (d : Definition) : Tree × Option Conflict → Prop
  | through {t'} (hfree : ∀ outer ∈ chain, ¬ t.hasName chain d outer) (hg : Grown t t' (t.copies chain d chain)) :
      Entered t chain d (t', none)
  | blocked {t'} (below : List Id) (outer : Id) (above : List Id) (hchain : chain = below ++ outer :: above)
      (hfree : ∀ id ∈ below, ¬ t.hasName chain d id) (htaken : t.hasName chain d outer)
      (hg : Grown t t' (t.copies chain d below)) :
      Entered t chain d (t', some ⟨(t.copyIn chain d outer).localName, (t.get outer).name⟩)

section Walk

variable {t t' : Tree} {chain ids : List Id} {id outer : Id} {d : Definition}

theorem copyIn_cons_self : t.copyIn (id :: ids) d id = d := by
  simp [copyIn, dotted_nil]

theorem copyIn_cons_of_ne (h : outer ≠ id) :
    t.copyIn (id :: ids) d outer = t.copyIn ids (d.within (t.get id).name) outer := by
  simp only [copyIn, Definition.within]
  rw [List.takeWhile_cons_of_pos (by simpa using Ne.symm h), dotted_cons]

theorem copyIn_congr (h : ∀ id ∈ chain, (t'.get id).name = (t.get id).name) :
    t'.copyIn chain d outer = t.copyIn chain d outer := by
  simp only [copyIn]
  rw [dotted_congr fun id hid => h id ((List.takeWhile_sublist _).subset hid)]

theorem Grown.copyIn {added : Id → Table} (h : Grown t t' added) : t'.copyIn chain d outer = t.copyIn chain d outer :=
  copyIn_congr fun id _ => h.name id

theorem Grown.hasName {added : Id → Table} (h : Grown t t' added) (hadded : added outer = []) :
    t'.hasName chain d outer ↔ t.hasName chain d outer := by
  unfold Tree.hasName taken
  rw [h.table, hadded, List.append_nil, h.copyIn]

/-- The step of the walk: the definition is in the scope, and what goes on around is what goes on with its longer name. -/
theorem Entered.cons (hid : id < t.scopes.length) (hnot : id ∉ ids) (hfree : ¬ t.taken id d.localName = true)
    {r : Tree × Option Conflict} (h : Entered (t.enter id (.defined d)) ids (d.within (t.get id).name) r) :
    Entered t (id :: ids) d r := by
  have hg := grown_enter hid (.defined d)
  have hne : ∀ outer ∈ ids, outer ≠ id := fun outer houter heq => hnot (heq ▸ houter)
  have hcopy : ∀ outer ∈ ids, t.copyIn (id :: ids) d outer =
      (t.enter id (.defined d)).copyIn ids (d.within (t.get id).name) outer := fun outer houter => by
    rw [copyIn_cons_of_ne (hne outer houter), hg.copyIn]
  have hname : ∀ outer ∈ ids, t.hasName (id :: ids) d outer ↔
      (t.enter id (.defined d)).hasName ids (d.within (t.get id).name) outer := fun outer houter => by
    rw [hg.hasName (if_neg (hne outer houter))]
    unfold hasName
    rw [copyIn_cons_of_ne (hne outer houter)]
  have hself : ¬ t.hasName (id :: ids) d id := by
    unfold hasName
    rwa [copyIn_cons_self]
  -- the symbols of this step and of the others together
  have hcopies : ∀ through ⊆ ids, (fun outer => (if outer = id then [Symbol.defined d] else []) ++
      (t.enter id (.defined d)).copies ids (d.within (t.get id).name) through outer) =
        t.copies (id :: ids) d (id :: through) := by
    intro through hsub
    funext outer
    unfold copies
    by_cases houter : outer = id
    · subst houter
      rw [if_pos rfl, if_neg fun hmem => hnot (hsub hmem), if_pos List.mem_cons_self, copyIn_cons_self]
      rfl
    · by_cases hmem : outer ∈ through
      · rw [if_neg houter, if_pos hmem, if_pos (List.mem_cons_of_mem _ hmem), hcopy outer (hsub hmem)]
        rfl
      · rw [if_neg houter, if_neg hmem, if_neg (by simp [houter, hmem])]
        rfl
  cases h with
  | through hfree' hg' =>
    refine .through (fun outer houter => ?_) (hcopies ids (List.Subset.refl _) ▸ hg.trans hg')
    rcases List.mem_cons.1 houter with rfl | houter
    · exact hself
    · exact (hname outer houter).not.2 (hfree' outer houter)
  | blocked below outer above hchain hfree' htaken hg' =>
    have houter : outer ∈ ids := hchain ▸ by simp
    have hbelow : below ⊆ ids := hchain ▸ List.subset_append_left _ _
    rw [← hcopy outer houter, hg.name]
    refine .blocked (id :: below) outer above (by rw [hchain]; rfl) (fun i hi => ?_) ((hname outer houter).2 htaken)
      (hcopies below hbelow ▸ hg.trans hg')
    rcases List.mem_cons.1 hi with rfl | hi
    · exact hself
    · exact (hname i (hbelow hi)).not.2 (hfree' i hi)

/-- **A definition goes through the scopes in which its name is free**, up to the first in which it is taken. -/
theorem enterOutwards_entered (hnodup : chain.Nodup) (hlt : ∀ id ∈ chain, id < t.scopes.length) :
    Entered t chain d (t.enterOutwards chain d) := by
  -- the tree and the definition's name change with every step of the walk
  induction chain generalizing t d with
  | nil =>
    have hg : Grown t t (t.copies [] d []) := .refl t
    exact .through nofun hg
  | cons id ids ih =>
    unfold enterOutwards
    obtain ⟨hnot, hnodup⟩ := List.nodup_cons.1 hnodup
    have hid := hlt id List.mem_cons_self
    have hself : t.copyIn (id :: ids) d id = d := copyIn_cons_self
    split
    · rename_i htaken
      have hb : Entered t (id :: ids) d (t, some ⟨(t.copyIn (id :: ids) d id).localName, (t.get id).name⟩) :=
        .blocked [] id ids rfl nofun (by unfold hasName; rwa [hself]) (.refl t)
      rwa [hself] at hb
    · rename_i hfree
      refine .cons hid hnot hfree (ih hnodup fun outer houter => ?_)
      rw [(grown_enter hid _).length]
      exact hlt outer (List.mem_cons_of_mem _ houter)

end Walk

/-! ## Scopes in a tree -/

/-- **Whether every scope but the first lies in an earlier one**: around it are that one and the scopes around that. -/
structure Rooted (t : Tree) : Prop where
  pos : 0 < t.scopes.length
  root : (t.get 0).enclosing = []
  inside : ∀ id ≠ 0, id < t.scopes.length → ∃ parent < id, (t.get id).enclosing = t.outwards parent

namespace Rooted

variable {t t' : Tree} {id : Id}

theorem outwards_zero (h : t.Rooted) : t.outwards 0 = [0] := by
  rw [outwards, h.root]

theorem exists_parent (h : t.Rooted) (h0 : id ≠ 0) (hid : id < t.scopes.length) :
    ∃ parent < id, t.outwards id = id :: t.outwards parent := by
  obtain ⟨parent, hlt, heq⟩ := h.inside id h0 hid
  exact ⟨parent, hlt, congrArg (id :: ·) heq⟩

theorem le_of_mem (h : t.Rooted) (hid : id < t.scopes.length) : ∀ outer ∈ t.outwards id, outer ≤ id := by
  induction id using Nat.strongRecOn with
  | ind id ih =>
    intro outer houter
    by_cases h0 : id = 0
    · rw [h0, h.outwards_zero, List.mem_singleton] at houter
      exact houter ▸ Nat.zero_le id
    · obtain ⟨parent, hlt, heq⟩ := h.exists_parent h0 hid
      rw [heq] at houter
      rcases List.mem_cons.1 houter with rfl | houter
      · exact Nat.le_refl _
      · exact Nat.le_trans (ih parent hlt (Nat.lt_trans hlt hid) outer houter) (Nat.le_of_lt hlt)

theorem lt_of_mem (h : t.Rooted) (hid : id < t.scopes.length) : ∀ outer ∈ t.outwards id, outer < t.scopes.length :=
  fun outer houter => Nat.lt_of_le_of_lt (h.le_of_mem hid outer houter) hid

theorem nodup_outwards (h : t.Rooted) (hid : id < t.scopes.length) : (t.outwards id).Nodup := by
  induction id using Nat.strongRecOn with
  | ind id ih =>
    by_cases h0 : id = 0
    · rw [h0, h.outwards_zero]
      exact List.nodup_singleton 0
    · obtain ⟨parent, hlt, heq⟩ := h.exists_parent h0 hid
      have hparent := Nat.lt_trans hlt hid
      rw [heq]
      exact List.nodup_cons.2 ⟨fun hmem => absurd (h.le_of_mem hparent id hmem) (Nat.not_le.2 hlt), ih parent hlt hparent⟩

/-- The root is the last of the scopes around a scope. -/
theorem outwards_eq_concat (h : t.Rooted) (hid : id < t.scopes.length) : ∃ inner, t.outwards id = inner ++ [0] := by
  induction id using Nat.strongRecOn with
  | ind id ih =>
    by_cases h0 : id = 0
    · exact ⟨[], h0 ▸ h.outwards_zero⟩
    · obtain ⟨parent, hlt, heq⟩ := h.exists_parent h0 hid
      obtain ⟨inner, hinner⟩ := ih parent hlt (Nat.lt_trans hlt hid)
      exact ⟨id :: inner, by rw [heq, hinner, List.cons_append]⟩

/-- **The qualified name is the name that the root knows a definition by.** -/
theorem globalName_eq (h : t.Rooted) (hid : id < t.scopes.length) (name : String) :
    t.globalName id name = t.nameIn 0 id name := by
  obtain ⟨inner, hinner⟩ := h.outwards_eq_concat hid
  have hnot : ∀ i ∈ inner, i ≠ 0 := by
    have hnodup := h.nodup_outwards hid
    rw [hinner, List.nodup_append_comm] at hnodup
    intro i hi heq
    exact (List.nodup_cons.1 hnodup).1 (heq ▸ hi)
  -- the way from the root is all of the way but the root
  unfold globalName nameIn
  rw [hinner, qualifiedName_concat, List.takeWhile_append_of_pos (by simpa using hnot)]
  simp

end Rooted
end Tree
end Scope
end TypedClient
