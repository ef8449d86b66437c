import TypedClient.Proofs.Expansion.Walk
import TypedClient.Proofs.Lists
/-!
# Places — what stands where in a document

In a **proper** document no mapping has a key twice and no list is longer than a machine word counts, as is so for every document
in memory.  There a pointer determines what stands at it: the parts of what a pointer designates are what their places designate
(`resolve_part`), however the place was come to.
-/
namespace TypedClient

namespace Node

mutual
/-- Whether a property holds of a node and of everything below it. -/
def everywhere (p : Node → Bool) : Node → Bool
  | .list path items => p (.list path items) && everywhereItems p items
  | .map path entries => p (.map path entries) && everywhereEntries p entries
  | node => p node

def everywhereItems (p : Node → Bool) : List Node → Bool
  | [] => true
  | x :: xs => everywhere p x && everywhereItems p xs

def everywhereEntries (p : Node → Bool) : List (String × Node) → Bool
  | [] => true
  | (_, x) :: rest => everywhere p x && everywhereEntries p rest
end

/-- Whether a mapping has no key twice, and a list no more items than a machine word counts. -/
def keepsKeys : Node → Bool
  | .list _ items => items.length < 2 ^ 63
  | .map _ entries => (entries.map (·.1)).Nodup
  | _ => true

/-- **What every document in memory is**: no key of a mapping comes twice, and every list is of a size that memory has. -/
def Proper (node : Node) : Prop := node.everywhere keepsKeys = true

instance (node : Node) : Decidable node.Proper := inferInstanceAs (Decidable (_ = true))

variable {p : Node → Bool}

theorem everywhereItems_iff : ∀ items : List Node, everywhereItems p items = true ↔ ∀ x ∈ items, x.everywhere p = true
  | [] => by simp [everywhereItems]
  | x :: xs => by simp [everywhereItems, everywhereItems_iff xs]

theorem everywhereEntries_iff : ∀ entries : List (String × Node),
    everywhereEntries p entries = true ↔ ∀ e ∈ entries, e.2.everywhere p = true
  | [] => by simp [everywhereEntries]
  | (k, x) :: rest => by simp [everywhereEntries, everywhereEntries_iff rest]

theorem everywhere_self (node : Node) (h : node.everywhere p = true) : p node = true := by
  cases node with
  | list path items => exact (Bool.and_eq_true_iff.1 (by rwa [everywhere] at h)).1
  | map path entries => exact (Bool.and_eq_true_iff.1 (by rwa [everywhere] at h)).1
  | _ => exact h

theorem everywhere_below (node x : Node) (h : node.everywhere p = true) (hx : Expansion.Below x node) :
    x.everywhere p = true := by
  cases hx with
  | item hx => exact (everywhereItems_iff _).1 (Bool.and_eq_true_iff.1 (by rwa [everywhere] at h)).2 x hx
  | value hx => exact (everywhereEntries_iff _).1 (Bool.and_eq_true_iff.1 (by rwa [everywhere] at h)).2 _ hx

end Node

namespace Expansion

/-! ## What a pointer leads to -/

theorem below_of_step {node next : Node} {token : String} (hs : Pointer.step node token = .ok (some next)) :
    Below next node := by
  cases node with
  | list path items =>
    unfold Pointer.step at hs
    simp only at hs
    split at hs
    · split at hs
      · simp only [Except.ok.injEq] at hs
        exact .item (List.mem_of_getElem? hs)
      · cases hs
    · cases hs
  | map path entries =>
    simp only [Pointer.step, Except.ok.injEq] at hs
    exact .value (mem_of_lookup token next entries hs)
  | _ => cases hs

theorem descend_induction {P : Node → Prop} (down : ∀ node x, Below x node → P node → P x) :
    ∀ (tokens : List String) (node next : Node), P node → Pointer.descend node tokens = .ok (some next) → P next
  | [], node, next, h, hd => by
    simp only [Pointer.descend, Except.ok.injEq, Option.some.injEq] at hd
    rwa [← hd]
  | t :: ts, node, next, h, hd => by
    rw [Pointer.descend] at hd
    split at hd
    · rename_i mid hm
      exact descend_induction down ts mid next (down node mid (below_of_step hm) h) hd
    · rename_i other hne
      exact absurd hd (hne next)

/-- **What passes from a node to everything one step below holds of whatever a pointer designates.** -/
theorem resolve_induction {P : Node → Prop} (down : ∀ node x, Below x node → P node → P x) {document node : Node}
    {pointer : String} (h : P document) (hr : Pointer.resolve document pointer = .ok (some node)) : P node := by
  unfold Pointer.resolve at hr
  split at hr
  · exact descend_induction down _ document node h hr
  · cases hr

theorem everywhere_resolve {p : Node → Bool} {document node : Node} {pointer : String}
    (h : document.everywhere p = true) (hr : Pointer.resolve document pointer = .ok (some node)) :
    node.everywhere p = true :=
  resolve_induction (fun node x hx h => Node.everywhere_below node x h hx) h hr

/-- **A part of what a pointer designates is what the place of the part designates.** -/
theorem resolve_part {document node : Node} {path q : String} {x : Node} (hd : document.Proper)
    (hr : Pointer.resolve document path = .ok (some node)) (hx : (q, x) ∈ (form node path).parts) :
    Pointer.resolve document q = .ok (some x) := by
  have hp := Node.everywhere_self node (everywhere_resolve hd hr)
  rcases mem_parts node path q x hx with ⟨p, items, i, rfl, hi, rfl⟩ | ⟨p, entries, key, rfl, hm, rfl⟩
  · have hlen : items.length < 2 ^ 63 := by simpa [Node.keepsKeys] using hp
    have hlt : i < items.length := (List.getElem?_eq_some_iff.1 hi).1
    have hdigits : 2 ^ 63 ≤ 10 ^ Text.digitLimit :=
      Nat.le_trans (by decide : 2 ^ 63 ≤ 10 ^ 19) (Nat.pow_le_pow_right (by decide) (by decide))
    exact Pointer.resolve_item document path i p items x (by omega) hr hi
  · have hn : (entries.map (·.1)).Nodup := by simpa [Node.keepsKeys] using hp
    exact Pointer.resolve_child document path key p entries x hr (lookup_of_mem key x entries hn hm)

/-! ## The references of a document -/

theorem mem_referencesOfItems {r : String} : ∀ items : List Node, r ∈ referencesOfItems items ↔ ∃ x ∈ items, r ∈ references x
  | [] => by simp [referencesOfItems]
  | x :: xs => by simp [referencesOfItems, mem_referencesOfItems xs]

theorem mem_referencesOfEntries {r : String} : ∀ entries : List (String × Node),
    r ∈ referencesOfEntries entries ↔ ∃ e ∈ entries, r ∈ references e.2
  | [] => by simp [referencesOfEntries]
  | (k, x) :: rest => by simp [referencesOfEntries, mem_referencesOfEntries rest]

theorem mem_references_of_form {node : Node} {path reference : String} {keys : List String}
    {siblings : List (String × Node)} (hf : form node path = .reference reference keys siblings) :
    reference ∈ references node := by
  cases node with
  | map p entries => simp [references, (form_map_reference hf).1]
  | _ => cases hf

theorem references_below {node x : Node} {r : String} (hx : Below x node) (hr : r ∈ references x) :
    r ∈ references node := by
  cases hx with
  | item hx =>
    rw [references, mem_referencesOfItems]
    exact ⟨x, hx, hr⟩
  | value hx =>
    rw [references, List.mem_append, mem_referencesOfEntries]
    exact .inr ⟨_, hx, hr⟩

/-- The references below a pointer are references of the document. -/
theorem references_resolve {document node : Node} {pointer r : String}
    (hr : Pointer.resolve document pointer = .ok (some node)) (h : r ∈ references node) : r ∈ references document :=
  resolve_induction (P := fun n => r ∈ references n → r ∈ references document)
    (fun _ _ hx hn hm => hn (references_below hx hm)) id hr h

end Expansion
end TypedClient
