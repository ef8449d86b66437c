import Mathlib.Data.Set.Finite.Lattice
import TypedClient.Proofs.Expansion.Memory
/-!
# Met — the places that an expansion comes to

An expansion comes to parts of the document and of the targets of its references, and to nothing else.  There are finitely many of
these places (`met_finite`), each determines what stands at it (`met_resolve`), and nothing is remembered at any other
(`follow_knownMet`).
-/
namespace TypedClient
namespace Expansion

/-! ## Places that a walk comes to -/

/-- What a walk over a node comes to without following references: the node, and the parts of what it comes to. -/
inductive Comes (node : Node) (path : String) : Node → String → Prop where
  | self : Comes node path node path
  | part {x y : Node} {p q : String} (h : Comes node path x p) (hy : (q, y) ∈ (form x p).parts) : Comes node path y q

/-- **What an expansion of the document comes to**: from the whole document or from the target of one of its references. -/
def Met (document x : Node) (q : String) : Prop :=
  Comes document "#" x q ∨ ∃ r ∈ references document, ∃ node, target document r = .ok node ∧ Comes node r x q

theorem comes_head {node x : Node} {path q : String} (h : Comes node path x q) :
    (x = node ∧ q = path) ∨ ∃ p y, (p, y) ∈ (form node path).parts ∧ Comes y p x q := by
  induction h with
  | self => exact .inl ⟨rfl, rfl⟩
  | @part x y p q _ hy ih =>
    rcases ih with ⟨rfl, rfl⟩ | ⟨p', y', hp, hc⟩
    · exact .inr ⟨q, y, hy, .self⟩
    · exact .inr ⟨p', y', hp, .part hc hy⟩

theorem comes_finite : ∀ (node : Node) (path : String), {q | ∃ x, Comes node path x q}.Finite := by
  refine parts_induction fun node ih path => ?_
  have hparts : (⋃ e ∈ {e | e ∈ (form node path).parts}, {q | ∃ x, Comes e.2 e.1 x q}).Finite :=
    (List.finite_toSet (form node path).parts).biUnion fun e he => ih path e.1 e.2 he e.1
  refine (hparts.insert path).subset ?_
  rintro q ⟨x, hc⟩
  rcases comes_head hc with ⟨-, rfl⟩ | ⟨p, y, hy, hc⟩
  · exact Set.mem_insert _ _
  · exact Set.mem_insert_of_mem _ (Set.mem_biUnion hy ⟨x, hc⟩)

section
variable {document : Node}

/-- **An expansion of a document comes to finitely many places.** -/
theorem met_finite (document : Node) : {q | ∃ x, Met document x q}.Finite := by
  have htargets : (⋃ r ∈ {r | r ∈ references document},
      {q | ∃ x node, target document r = .ok node ∧ Comes node r x q}).Finite := by
    refine (List.finite_toSet (references document)).biUnion fun r _ => ?_
    cases ht : target document r with
    | error e => exact Set.finite_empty.subset fun q ⟨x, node, h, _⟩ => by cases h
    | ok node =>
      refine (comes_finite node r).subset ?_
      rintro q ⟨x, node', h, hc⟩
      cases h
      exact ⟨x, hc⟩
  refine ((comes_finite document "#").union htargets).subset ?_
  rintro q ⟨x, hc | ⟨r, hr, node, ht, hc⟩⟩
  · exact .inl ⟨x, hc⟩
  · exact .inr (Set.mem_biUnion hr ⟨x, node, ht, hc⟩)

theorem met_part {node x : Node} {path q : String} (h : Met document node path) (hx : (q, x) ∈ (form node path).parts) :
    Met document x q := by
  rcases h with hc | ⟨r, hr, start, ht, hc⟩
  · exact .inl (.part hc hx)
  · exact .inr ⟨r, hr, start, ht, .part hc hx⟩

theorem met_target {node : Node} {r : String} (hr : r ∈ references document) (ht : target document r = .ok node) :
    Met document node r := .inr ⟨r, hr, node, ht, .self⟩

theorem comes_resolve (hd : document.Proper) {node x : Node} {path q : String} (h : Comes node path x q)
    (hr : Pointer.resolve document path = .ok (some node)) : Pointer.resolve document q = .ok (some x) := by
  induction h with
  | self => exact hr
  | part _ hy ih => exact resolve_part hd ih hy

/-- What an expansion comes to stands where it is come to. -/
theorem met_resolve (hd : document.Proper) {x : Node} {q : String} (h : Met document x q) :
    Pointer.resolve document q = .ok (some x) := by
  rcases h with hc | ⟨r, -, node, ht, hc⟩
  · exact comes_resolve hd hc (Pointer.resolve_root document)
  · exact comes_resolve hd hc (target_eq_ok.1 ht).1

theorem met_reference (hd : document.Proper) {node : Node} {path reference : String} {keys : List String}
    {siblings : List (String × Node)} (h : Met document node path) (hf : form node path = .reference reference keys siblings) :
    reference ∈ references document :=
  references_resolve (met_resolve hd h) (mem_references_of_form hf)

/-! ## States that a walk comes to -/

/-- Whether everything that is remembered is so at places that are met. -/
def KnownMet (document : Node) (s : Expansion) : Prop := ∀ q v, s.finished.lookup q = some v → ∃ x, Met document x q

theorem knownMet_of_finished {s t : Expansion} (h : KnownMet document s) (hf : t.finished = s.finished) :
    KnownMet document t := fun q v hv => h q v (by rwa [← hf])

theorem knownMet_conclude {s : Expansion} {r : Outcome Node} {node : Node} {path : String} (hm : Met document node path)
    (h : KnownMet document r.state) : KnownMet document (conclude path s r).state := by
  cases r with
  | error e t => exact knownMet_of_finished h rfl
  | ok v t =>
    by_cases hs : t.stubs = s.stubs
    · rw [conclude_kept path v hs]
      intro q w hw
      simp only [Outcome.state, List.lookup_cons] at hw
      by_cases hq : q = path
      · exact ⟨node, hq ▸ hm⟩
      · rw [beq_false_of_ne hq] at hw
        exact h q w hw
    · rw [conclude_stubbed path v hs]
      exact knownMet_of_finished h rfl

theorem expandParts_knownMet {follow : String → Step Node} : ∀ (parts : List (String × Node)) (s : Expansion),
    (∀ q x, (q, x) ∈ parts → ∀ t, KnownMet document t → KnownMet document (Outcome.state (expandNode follow x q t))) →
    KnownMet document s → KnownMet document (expandParts follow parts s).state
  | [], _, _, h => h
  | (q, x) :: rest, s, hx, h => by
    have hfirst := hx q x List.mem_cons_self s h
    rw [expandParts]
    cases hr : expandNode follow x q s with
    | error e t =>
      rw [hr] at hfirst
      exact hfirst
    | ok y t =>
      rw [hr] at hfirst
      simp only [Outcome.andThen, Outcome.state_map]
      exact expandParts_knownMet rest t (fun q x hm => hx q x (List.mem_cons_of_mem _ hm)) hfirst

theorem expandNode_knownMet (hd : document.Proper) {follow : String → Step Node}
    (hfollow : ∀ r ∈ references document, ∀ t, KnownMet document t → KnownMet document (Outcome.state (follow r t))) :
    ∀ (node : Node) (path : String) (s : Expansion), Met document node path → KnownMet document s →
      KnownMet document (Outcome.state (expandNode follow node path s)) := by
  refine parts_induction fun node ih path s hm h => ?_
  have hparts : ∀ q x, (q, x) ∈ (form node path).parts → ∀ t, KnownMet document t →
      KnownMet document (Outcome.state (expandNode follow x q t)) :=
    fun q x hx t => ih path q x hx q t (met_part hm hx)
  have hbegin : KnownMet document (s.begin path) := knownMet_of_finished h rfl
  cases expandNode_visit follow node path s with
  | leaf hf he =>
    rw [he]
    exact h
  | known v hf hk he =>
    rw [he]
    exact h
  | whole parts build hf hk he =>
    rw [hf] at hparts
    rw [he]
    refine knownMet_conclude hm ?_
    rw [Outcome.state_map]
    exact expandParts_knownMet parts _ hparts hbegin
  | remote reference keys siblings hf hk hl he =>
    rw [he]
    exact knownMet_conclude hm hbegin
  | cut reference keys siblings hf hk hl ha he =>
    rw [he]
    exact knownMet_conclude hm (knownMet_of_finished hbegin rfl)
  | followed reference keys siblings hf hk hl ha he =>
    rw [hf] at hparts
    rw [he]
    refine knownMet_conclude hm ?_
    have hnext := hfollow reference (met_reference hd hm hf) (s.begin path) hbegin
    cases hr : follow reference (s.begin path) with
    | error e t =>
      rw [hr] at hnext
      exact hnext
    | ok v t =>
      rw [hr] at hnext
      cases v with
      | map p found =>
        simp only [Outcome.andThen, beside, Outcome.state_map]
        exact expandParts_knownMet siblings t hparts hnext
      | _ => exact hnext

theorem follow_knownMet (hd : document.Proper) : ∀ (depth : Nat) (r : String), r ∈ references document →
    ∀ s, KnownMet document s → KnownMet document (Outcome.state (follow document depth r s))
  | 0, r, _, s, h => by
    rw [follow_zero]
    exact h
  | depth + 1, r, hr, s, h => by
    cases ht : target document r with
    | error e =>
      rw [follow_error ht]
      exact h
    | ok node =>
      rw [follow_target ht]
      exact expandNode_knownMet hd (follow_knownMet hd depth) node r s (met_target hr ht) h

end

end Expansion
end TypedClient
