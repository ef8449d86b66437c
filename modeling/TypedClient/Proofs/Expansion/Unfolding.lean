import Mathlib.Data.List.Perm.Subperm
import Mathlib.Logic.Relation
import TypedClient.Proofs.Expansion.Places
/-!
# Unfolding — the tree that a document stands for

A document with references stands for a tree, endless if references lead round in circles: what every reference leads to in its
place, whatever the order of the keys.  The tree is looked at down to a depth (`sourceTree`).  An expanded document stands for a
tree too (`outputTree`): the mark of a reference beside other entries says nothing, and where nothing stands but the mark, the tree
goes on in the source.
-/
namespace TypedClient
namespace Expansion

open Relation (TransGen)

/-- A tree down to some depth; where it is deeper, it is cut.  A reference that leads nowhere leaves nothing but a gap. -/
inductive Tree where
  | cut
  | missing
  | leaf (node : Node)
  | list (items : List Tree)
  | map (entry : String → Option Tree)

/-- One level of a tree; `tree` is what stands below. -/
def grow (tree : Node → Tree) : Node → Tree
  | .list _ items => .list (items.map tree)
  | .map _ entries => .map fun key => (entries.lookup key).map tree
  | node => .leaf node

/-! ## The source -/

/-- The reference that a node is, if it is one. -/
def refersTo : Node → Option String
  | .map _ entries => reference? entries
  | _ => none

/-- What a node leads to over references alone, at most `fuel` of them. -/
def settleIn (document : Node) : Nat → Node → Option Node
  | 0, _ => none
  | fuel + 1, node =>
    match refersTo node with
    | none => some node
    | some reference =>
      match target document reference with
      | .error _ => none
      | .ok next => settleIn document fuel next

/-- **What a node leads to over references alone**: itself if it is no reference.  There is nothing if a reference has no target or
if the references lead round in circles. -/
def settle (document node : Node) : Option Node := settleIn document ((references document).length + 1) node

/-- **The tree of a node of the document** with every reference followed, down to a depth. -/
def sourceTree (document : Node) : Nat → Node → Tree
  | 0, _ => .cut
  | depth + 1, node =>
    match settle document node with
    | none => .missing
    | some settled => grow (sourceTree document depth) settled

/-- **The tree of an expanded node** down to a depth.  Of a mapping with text under `$ref` that text is no entry, and if there is no
other key, the tree is that of what the text designates in the document. -/
def outputTree (document : Node) : Nat → Node → Tree
  | 0, _ => .cut
  | depth + 1, node =>
    match node, refersTo node with
    | .map _ entries, some reference =>
      if entries.all fun e => e.1 == referenceKey then
        match target document reference with
        | .error _ => .missing
        | .ok next => sourceTree document (depth + 1) next
      else .map fun key => if key = referenceKey then none else (entries.lookup key).map (outputTree document depth)
    | node, _ => grow (outputTree document depth) node

/-- **Whether one reference leads to another**: the target of the first is the second. -/
def Leads (document : Node) (r q : String) : Prop := ∃ next, target document r = .ok next ∧ refersTo next = some q

/-- **Whether no references lead round in circles.** -/
def LoopFree (document : Node) : Prop := ∀ r, ¬ TransGen (Leads document) r r

/-! ## Settling -/

section
variable {document node next : Node} {r : String}

theorem settleIn_of_none (h : refersTo node = none) (fuel : Nat) : settleIn document (fuel + 1) node = some node := by
  rw [settleIn, h]

theorem settleIn_of_error {e : ExpandError} (h : refersTo node = some r) (ht : target document r = .error e) (fuel : Nat) :
    settleIn document (fuel + 1) node = none := by
  rw [settleIn, h]
  simp only [ht]

theorem settleIn_of_target (h : refersTo node = some r) (ht : target document r = .ok next) (fuel : Nat) :
    settleIn document (fuel + 1) node = settleIn document fuel next := by
  rw [settleIn, h]
  simp only [ht]

theorem mem_references_of_refersTo (h : refersTo node = some r) : r ∈ references node := by
  cases node with
  | map p entries =>
    have h : reference? entries = some r := h
    simp [references, h]
  | _ => cases h

theorem refersTo_target (ht : target document r = .ok next) {q : String} (h : refersTo next = some q) :
    q ∈ references document :=
  references_resolve (target_eq_ok.1 ht).1 (mem_references_of_refersTo h)

/-- **What is followed on and on goes through one reference after the other**: if a property of nodes and fuel says that a node is a
reference and passes to its target with less fuel, then there are as many references on the way, each leading to the next ones. -/
theorem exists_way {P : Nat → Node → Prop}
    (hstep : ∀ fuel node, P (fuel + 1) node → ∃ r next, refersTo node = some r ∧ target document r = .ok next ∧ P fuel next) :
    ∀ (fuel : Nat) (node : Node), P fuel node → (∀ r, refersTo node = some r → r ∈ references document) →
    ∃ rs : List String, rs.length = fuel ∧ rs.Pairwise (TransGen (Leads document)) ∧
      ∀ q ∈ rs, q ∈ references document ∧ ∃ r, refersTo node = some r ∧ (q = r ∨ TransGen (Leads document) r q)
  | 0, _, _, _ => ⟨[], rfl, .nil, fun _ h => absurd h List.not_mem_nil⟩
  | fuel + 1, node, h, hmem => by
    obtain ⟨r, next, hr, ht, hnext⟩ := hstep fuel node h
    obtain ⟨rs, hlen, hpair, hall⟩ := exists_way hstep fuel next hnext fun q hq => refersTo_target ht hq
    have hway : ∀ q ∈ rs, TransGen (Leads document) r q := by
      intro q hq
      obtain ⟨-, r', hr', hq'⟩ := hall q hq
      have hlead : Leads document r r' := ⟨next, ht, hr'⟩
      rcases hq' with rfl | hq'
      · exact .single hlead
      · exact .head hlead hq'
    refine ⟨r :: rs, by rw [List.length_cons, hlen], List.pairwise_cons.2 ⟨hway, hpair⟩, fun q hq => ?_⟩
    rcases List.mem_cons.1 hq with rfl | hq
    · exact ⟨hmem q hr, q, hr, .inl rfl⟩
    · exact ⟨(hall q hq).1, r, hr, .inr (hway q hq)⟩

theorem way_le (hloop : LoopFree document) {rs : List String} (hpair : rs.Pairwise (TransGen (Leads document)))
    (hmem : ∀ q ∈ rs, q ∈ references document) : rs.length ≤ (references document).length := by
  have hnodup : rs.Nodup := by
    refine hpair.imp ?_
    rintro a b hab rfl
    exact hloop a hab
  exact (hnodup.subperm hmem).length_le

/-- **If one more step changes what a node leads to, the way over references goes on until then.** -/
theorem exists_way_of_unstable {fuel : Nat} (hne : settleIn document fuel node ≠ settleIn document (fuel + 1) node)
    (hmem : ∀ r, refersTo node = some r → r ∈ references document) :
    ∃ rs : List String, rs.length = fuel ∧ rs.Pairwise (TransGen (Leads document)) ∧
      ∀ q ∈ rs, q ∈ references document ∧ ∃ r, refersTo node = some r ∧ (q = r ∨ TransGen (Leads document) r q) := by
  refine exists_way (P := fun fuel node => settleIn document fuel node ≠ settleIn document (fuel + 1) node)
    (fun fuel node hne => ?_) fuel node hne hmem
  cases hr : refersTo node with
  | none => exact absurd ((settleIn_of_none hr fuel).trans (settleIn_of_none hr (fuel + 1)).symm) hne
  | some r =>
    cases ht : target document r with
    | error e => exact absurd ((settleIn_of_error hr ht fuel).trans (settleIn_of_error hr ht (fuel + 1)).symm) hne
    | ok next =>
      rw [settleIn_of_target hr ht, settleIn_of_target hr ht] at hne
      exact ⟨r, next, rfl, ht, hne⟩

/-- **A reference leads to what its target leads to.** -/
theorem settle_target (hloop : LoopFree document) (hr : refersTo node = some r) (hm : r ∈ references document)
    (ht : target document r = .ok next) : settle document node = settle document next := by
  have hmem : ∀ q, refersTo node = some q → q ∈ references document := by
    intro q hq
    rw [hr] at hq
    cases hq
    exact hm
  have hstable : settleIn document ((references document).length + 1) node =
      settleIn document ((references document).length + 2) node := by
    by_contra hne
    obtain ⟨rs, hlen, hpair, hall⟩ := exists_way_of_unstable hne hmem
    have := way_le hloop hpair fun q hq => (hall q hq).1
    omega
  unfold settle
  rw [hstable, settleIn_of_target hr ht]

/-- **Every reference leads somewhere** if there are no loops and every reference has a target. -/
theorem settle_isSome (hloop : LoopFree document) (htargets : ∀ r ∈ references document, ∃ next, target document r = .ok next)
    (hmem : ∀ r, refersTo node = some r → r ∈ references document) : (settle document node).isSome := by
  rw [Option.isSome_iff_ne_none]
  intro hnone
  have hstep : ∀ fuel node, (settleIn document (fuel + 1) node = none ∧ ∀ r, refersTo node = some r → r ∈ references document) →
      ∃ r next, refersTo node = some r ∧ target document r = .ok next ∧
        (settleIn document fuel next = none ∧ ∀ r, refersTo next = some r → r ∈ references document) := by
    rintro fuel node ⟨hnone, hmem⟩
    cases hr : refersTo node with
    | none =>
      rw [settleIn_of_none hr] at hnone
      cases hnone
    | some r =>
      obtain ⟨next, ht⟩ := htargets r (hmem r hr)
      rw [settleIn_of_target hr ht] at hnone
      exact ⟨r, next, rfl, ht, hnone, fun q hq => refersTo_target ht hq⟩
  obtain ⟨rs, hlen, hpair, hall⟩ :=
    exists_way (P := fun fuel node => settleIn document fuel node = none ∧ ∀ r, refersTo node = some r → r ∈ references document)
      hstep _ node ⟨hnone, hmem⟩ hmem
  have := way_le hloop hpair fun q hq => (hall q hq).1
  omega

theorem settle_of_none (h : refersTo node = none) : settle document node = some node := settleIn_of_none h _

/-- **The tree of a reference is the tree of its target.** -/
theorem sourceTree_target (hloop : LoopFree document) (hr : refersTo node = some r) (hm : r ∈ references document)
    (ht : target document r = .ok next) : ∀ depth, sourceTree document depth node = sourceTree document depth next
  | 0 => rfl
  | depth + 1 => by rw [sourceTree, sourceTree, settle_target hloop hr hm ht]

theorem sourceTree_of_none (h : refersTo node = none) (depth : Nat) :
    sourceTree document (depth + 1) node = grow (sourceTree document depth) node := by
  rw [sourceTree, settle_of_none h]

end

/-! ## Entries -/

theorem lookup_setEntry (key q : String) (v : Node) : ∀ entries : List (String × Node),
    (setEntry entries key v).lookup q = if q = key then some v else entries.lookup q
  | [] => by
    rw [setEntry, List.lookup_cons]
    by_cases h : q = key
    · rw [if_pos h, beq_iff_eq.2 h]
    · rw [if_neg h, beq_false_of_ne h]
  | (k, x) :: rest => by
    rw [setEntry]
    by_cases hk : k = key
    · rw [if_pos hk, List.lookup_cons, List.lookup_cons, hk]
      by_cases h : q = key
      · rw [if_pos h, beq_iff_eq.2 h]
      · rw [if_neg h, beq_false_of_ne h]
    · rw [if_neg hk, List.lookup_cons, List.lookup_cons, lookup_setEntry key q v rest]
      by_cases h : q = k
      · subst h
        rw [beq_self_eq_true]
        simp only [if_neg hk]
      · rw [beq_false_of_ne h]

/-- **What entries with changes say of a key**: what the changes say, or else what the entries said. -/
theorem lookup_setEntries (q : String) : ∀ (changes entries : List (String × Node)), (changes.map (·.1)).Nodup →
    (setEntries entries changes).lookup q = (changes.lookup q).or (entries.lookup q)
  | [], _, _ => rfl
  | (key, v) :: rest, entries, hn => by
    rw [List.map_cons, List.nodup_cons] at hn
    have ih := lookup_setEntries q rest (setEntry entries key v) hn.2
    rw [setEntries, List.foldl_cons]
    rw [setEntries] at ih
    rw [ih, lookup_setEntry, List.lookup_cons]
    by_cases h : q = key
    · have hnone : rest.lookup q = none := lookup_eq_none_iff_not_mem.2 (h ▸ hn.1)
      rw [hnone, if_pos h, beq_iff_eq.2 h]
      rfl
    · rw [if_neg h, beq_false_of_ne h]

theorem nodup_setEntry (key : String) (v : Node) : ∀ entries : List (String × Node), (entries.map (·.1)).Nodup →
    ((setEntry entries key v).map (·.1)).Nodup ∧
      ∀ q, q ∈ (setEntry entries key v).map (·.1) → q = key ∨ q ∈ entries.map (·.1)
  | [], _ => by simp [setEntry]
  | (k, x) :: rest, hn => by
    rw [List.map_cons, List.nodup_cons] at hn
    obtain ⟨ih, hkeys⟩ := nodup_setEntry key v rest hn.2
    rw [setEntry]
    by_cases hk : k = key
    · rw [if_pos hk, List.map_cons, List.nodup_cons, ← hk]
      exact ⟨hn, fun q hq => .inr hq⟩
    · rw [if_neg hk, List.map_cons, List.nodup_cons]
      refine ⟨⟨fun hm => ?_, ih⟩, fun q hq => ?_⟩
      · rcases hkeys k hm with h | h
        · exact hk h
        · exact hn.1 h
      · rcases List.mem_cons.1 hq with h | h
        · exact .inr (List.mem_cons.2 (.inl h))
        · rcases hkeys q h with h | h
          · exact .inl h
          · exact .inr (List.mem_cons.2 (.inr h))

theorem nodup_setEntries : ∀ changes entries : List (String × Node), (entries.map (·.1)).Nodup →
    ((setEntries entries changes).map (·.1)).Nodup
  | [], _, hn => hn
  | (key, v) :: rest, entries, hn => nodup_setEntries rest (setEntry entries key v) (nodup_setEntry key v entries hn).1

end Expansion
end TypedClient
