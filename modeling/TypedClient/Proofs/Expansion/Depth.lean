import TypedClient.Proofs.Expansion.Walk
/-!
# Depth — more depth keeps what came to an end

A walk that came to an end comes to the same end with more depth (`within_mono`), so that the depth is a bound and nothing else:
**the end of a walk** is what it comes to with any depth that suffices.
-/
namespace TypedClient
namespace Expansion

open Outcome (Ended)

theorem ended_conclude (path : String) (s : Expansion) (r : Outcome Node) : (conclude path s r).Ended ↔ r.Ended := by
  rw [Ended, conclude_answer, Ended]

/-- Whatever `f` brings to an end, `g` brings to the same end. -/
def Extends (f g : String → Step Node) : Prop := ∀ reference s, Ended (f reference s) → g reference s = f reference s

variable {f g : String → Step Node}

theorem expandParts_extends : ∀ (parts : List (String × Node)) (s : Expansion),
    (∀ q x, (q, x) ∈ parts → ∀ s, Ended (expandNode f x q s) → expandNode g x q s = expandNode f x q s) →
    (expandParts f parts s).Ended → expandParts g parts s = expandParts f parts s
  | [], _, _, _ => rfl
  | (q, x) :: rest, s, hx, h => by
    rw [expandParts] at h
    rw [expandParts, expandParts, hx q x List.mem_cons_self s h.first]
    cases hr : expandNode f x q s with
    | error e t => rfl
    | ok y t =>
      rw [hr] at h
      simp only [Outcome.andThen, Outcome.ended_map] at h ⊢
      rw [expandParts_extends rest t (fun q x hm => hx q x (List.mem_cons_of_mem _ hm)) h]

/-- **A walk that comes to an end comes to the same end behind references that are followed further.** -/
theorem expandNode_extends (hfg : Extends f g) : ∀ (node : Node) (path : String) (s : Expansion),
    Ended (expandNode f node path s) → expandNode g node path s = expandNode f node path s := by
  refine parts_induction fun node ih path s h => ?_
  cases expandNode_visit f node path s with
  | leaf hf he => rw [he, expandNode_leaf hf]
  | known v hf hk he => rw [he, expandNode_known hf hk]
  | whole parts build hf hk he =>
    rw [he, ended_conclude, Outcome.ended_map] at h
    rw [he, expandNode_whole hf hk, expandParts_extends parts _ (fun q x hm => ih path q x (by rwa [hf]) q) h]
  | remote reference keys siblings hf hk hl he => rw [he, expandNode_remote hf hk hl]
  | cut reference keys siblings hf hk hl ha he => rw [he, expandNode_cut hf hk hl ha]
  | followed reference keys siblings hf hk hl ha he =>
    rw [he, ended_conclude] at h
    rw [he, expandNode_followed hf hk hl ha, hfg reference (s.begin path) h.first]
    cases hu : f reference (s.begin path) with
    | error e t => rfl
    | ok target t =>
      rw [hu] at h
      simp only [Outcome.andThen] at h ⊢
      cases target with
      | map p found =>
        simp only [beside, Outcome.ended_map] at h ⊢
        rw [expandParts_extends siblings t (fun q x hm => ih path q x (by rwa [hf]) q) h]
      | _ => rfl

variable {document : Node}

theorem follow_extends (document : Node) : ∀ depth : Nat, Extends (follow document depth) (follow document (depth + 1))
  | 0 => fun reference s h => absurd rfl h
  | depth + 1 => fun reference s h => by
    cases ht : target document reference with
    | error e => rw [follow_error ht, follow_error ht]
    | ok node =>
      rw [follow_target ht] at h
      rw [follow_target ht, follow_target ht]
      exact expandNode_extends (follow_extends document depth) node reference s h

theorem follow_mono {depth more : Nat} (hle : depth ≤ more) : Extends (follow document depth) (follow document more) := by
  induction hle with
  | refl => exact fun _ _ _ => rfl
  | @step more _ ih =>
    intro reference s h
    have := ih reference s h
    rw [follow_extends document more reference s (by rwa [this]), this]

/-- **More depth keeps what came to an end.** -/
theorem within_mono {depth more : Nat} (hle : depth ≤ more) {node : Node} {path : String} {s : Expansion}
    (h : Ended (within document depth node path s)) :
    within document more node path s = within document depth node path s :=
  expandNode_extends (follow_mono hle) node path s h

end Expansion
end TypedClient
