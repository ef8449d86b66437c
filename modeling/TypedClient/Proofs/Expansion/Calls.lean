import Mathlib.Logic.Relation
import TypedClient.Proofs.Expansion.Memory
/-!
# Calls — the references that a walk follows

A walk over parts is structural; only behind the references it follows can it fail to end.  A **call** is a reference together
with the state it is followed from.  The walk asks for calls one after the other (`Asks`), each of them asks for calls in turn
(`Calls`), and where a walk ends in an error that is not its own, it is the error of the call it asked for last.
-/
namespace TypedClient
namespace Expansion

open Outcome (Ended)

/-- A reference and the state it is followed from. -/
structure Call where
  reference : String
  state : Expansion

/-- What a call comes to with at most `depth` jumps inside one another. -/
def Call.run (document : Node) (depth : Nat) (c : Call) : Outcome Node := follow document depth c.reference c.state

/-- **What the walk over parts asks for**: some part before which all parts come to values is a reference that is followed, or it
asks for something inside. -/
inductive Asks (document : Node) : List (String × Node) → Expansion → Call → Prop where
  | later {q : String} {x y : Node} {rest : List (String × Node)} {s t : Expansion} {c : Call} (depth : Nat)
    (hx : within document depth x q s = .ok y t) (hc : Asks document rest t c) : Asks document ((q, x) :: rest) s c
  | here {q reference : String} {x : Node} {rest siblings : List (String × Node)} {keys : List String} {s : Expansion}
    (hf : form x q = .reference reference keys siblings) (hk : s.finished.lookup q = none)
    (hl : Text.startsWith reference "#" = true) (ha : reference ∉ (s.begin q).active) :
    Asks document ((q, x) :: rest) s ⟨reference, s.begin q⟩
  | part {q : String} {x : Node} {rest parts : List (String × Node)} {build : List Node → Node} {s : Expansion} {c : Call}
    (hf : form x q = .whole parts build) (hk : s.finished.lookup q = none) (hc : Asks document parts (s.begin q) c) :
    Asks document ((q, x) :: rest) s c
  | sibling {q reference : String} {x : Node} {rest siblings : List (String × Node)} {keys : List String} {s t : Expansion}
    {p : Option String} {found : List (String × Node)} {c : Call} (depth : Nat)
    (hf : form x q = .reference reference keys siblings) (hk : s.finished.lookup q = none)
    (hl : Text.startsWith reference "#" = true) (ha : reference ∉ (s.begin q).active)
    (hr : follow document depth reference (s.begin q) = .ok (.map p found) t) (hc : Asks document siblings t c) :
    Asks document ((q, x) :: rest) s c

/-- **What a call asks for**: what the walk over the target of its reference asks for. -/
def Calls (document : Node) (c d : Call) : Prop :=
  ∃ node, target document c.reference = .ok node ∧ Asks document [(c.reference, node)] c.state d

variable {document : Node}

/-! ## One depth as good as another -/

theorem within_unique {depth more : Nat} {node : Node} {path : String} {s : Expansion}
    (h : Ended (within document depth node path s)) (h' : Ended (within document more node path s)) :
    within document depth node path s = within document more node path s := by
  rcases Nat.le_total depth more with hle | hle
  · exact (within_mono hle h).symm
  · exact within_mono hle h'

theorem follow_unique {depth more : Nat} {reference : String} {s : Expansion}
    (h : Ended (follow document depth reference s)) (h' : Ended (follow document more reference s)) :
    follow document depth reference s = follow document more reference s := by
  rcases Nat.le_total depth more with hle | hle
  · exact (follow_mono hle reference s h).symm
  · exact follow_mono hle reference s h'

/-! ## Errors of calls -/

@[simp] theorem answer_error {α : Type} (e e' : ExpandError) (s : Expansion) :
    Outcome.answer (.error e' s : Outcome α) = .error e ↔ e' = e := by
  simp [Outcome.answer]

@[simp] theorem answer_andThen_error {α β : Type} (e e' : ExpandError) (s : Expansion) (k : α → Expansion → Outcome β) :
    (Outcome.andThen (.error e' s) k).answer = .error e ↔ e' = e := by
  simp [Outcome.andThen]

theorem answer_andThen {α β : Type} {r : Outcome α} {k : α → Expansion → Outcome β} {e : ExpandError}
    (h : r.answer = .error e) : (r.andThen k).answer = .error e := by
  cases r with
  | ok v t => cases h
  | error e' t =>
    cases h
    rfl

theorem answer_map {α β : Type} {r : Outcome α} (g : α → β) {e : ExpandError} :
    (r.map g).answer = .error e ↔ r.answer = .error e := by
  cases r <;> simp [Outcome.map, Outcome.answer]

/-- **The error of a call is the error of the walk that asks for it**, if that ends. -/
theorem answer_of_asks {parts : List (String × Node)} {s : Expansion} {c : Call} {e : ExpandError} {depth : Nat}
    (h : Asks document parts s c) (hend : Ended (expandParts (follow document depth) parts s))
    (hc : (c.run document depth).answer = .error e) :
    Outcome.answer (expandParts (follow document depth) parts s) = .error e := by
  induction h with
  | @later q x y rest s t c d hx _ ih =>
    rw [expandParts] at hend ⊢
    have hw : expandNode (follow document depth) x q s = .ok y t := by
      rw [← hx]
      exact within_unique hend.first (by rw [hx]; exact Outcome.ended_ok y t)
    rw [hw] at hend ⊢
    exact (answer_map (y :: ·)).2 (ih ((Outcome.ended_map _ _).1 hend) hc)
  | @here q reference x rest siblings keys s hf hk hl ha =>
    rw [expandParts]
    refine answer_andThen ?_
    rw [expandNode_followed hf hk hl ha, conclude_answer]
    exact answer_andThen hc
  | @part q x rest parts build s c hf hk _ ih =>
    rw [expandParts] at hend ⊢
    have hfirst := hend.first
    refine answer_andThen ?_
    rw [expandNode_whole hf hk, ended_conclude, Outcome.ended_map] at hfirst
    rw [expandNode_whole hf hk, conclude_answer, answer_map]
    exact ih hfirst hc
  | @sibling q reference x rest siblings keys s t p found c d hf hk hl ha hr _ ih =>
    rw [expandParts] at hend ⊢
    have hfirst := hend.first
    refine answer_andThen ?_
    rw [expandNode_followed hf hk hl ha, ended_conclude] at hfirst
    have hw : follow document depth reference (s.begin q) = .ok (.map p found) t := by
      rw [← hr]
      exact follow_unique hfirst.first (by rw [hr]; exact Outcome.ended_ok _ t)
    rw [expandNode_followed hf hk hl ha, conclude_answer, hw]
    rw [hw] at hfirst
    exact (answer_map _).2 (ih ((Outcome.ended_map _ _).1 hfirst) hc)

theorem ended_of_asks {parts : List (String × Node)} {s : Expansion} {c : Call} {depth : Nat}
    (h : Asks document parts s c) (hend : Ended (expandParts (follow document depth) parts s)) :
    Ended (c.run document depth) := fun hc => hend (answer_of_asks h hend hc)

/-- Whether a walk over parts that comes to an error has it from a call, unless a reference is remote. -/
def Blames (document : Node) (depth : Nat) (e : ExpandError) (parts : List (String × Node)) (s : Expansion) : Prop :=
  (∃ reference, e = .remote reference) ∨ ∃ c, Asks document parts s c ∧ (c.run document depth).answer = .error e

theorem expandParts_blames {depth : Nat} {e : ExpandError} : ∀ (parts : List (String × Node)) (s : Expansion),
    (∀ q x, (q, x) ∈ parts → ∀ t, Outcome.answer (within document depth x q t) = .error e →
      ∀ rest, Blames document depth e ((q, x) :: rest) t) →
    Outcome.answer (expandParts (follow document depth) parts s) = .error e → Blames document depth e parts s
  | [], s, _, h => by cases h
  | (q, x) :: rest, s, hx, h => by
    rw [expandParts] at h
    cases hr : expandNode (follow document depth) x q s with
    | error e' t =>
      rw [hr] at h
      rw [answer_andThen_error] at h
      exact hx q x List.mem_cons_self s (by rw [within, hr, h]; rfl) rest
    | ok y t =>
      rw [hr] at h
      have hrest := expandParts_blames rest t (fun q x hm => hx q x (List.mem_cons_of_mem _ hm)) ((answer_map (y :: ·)).1 h)
      rcases hrest with hremote | ⟨c, hc, he⟩
      · exact .inl hremote
      · exact .inr ⟨c, .later depth hr hc, he⟩

/-- **A walk that comes to an error has it from a call it asked for**, unless a reference is remote. -/
theorem within_blames {depth : Nat} {e : ExpandError} : ∀ (node : Node) (path : String) (s : Expansion),
    Outcome.answer (within document depth node path s) = .error e →
    ∀ rest, Blames document depth e ((path, node) :: rest) s := by
  refine parts_induction fun node ih path s h rest => ?_
  have hparts : ∀ q x, (q, x) ∈ (form node path).parts → ∀ t, Outcome.answer (within document depth x q t) = .error e →
      ∀ rest, Blames document depth e ((q, x) :: rest) t := fun q x hm => ih path q x hm q
  rw [within] at h
  cases expandNode_visit (follow document depth) node path s with
  | leaf hf he =>
    rw [he] at h
    cases h
  | known v hf hk he =>
    rw [he] at h
    cases h
  | whole parts build hf hk he =>
    rw [hf] at hparts
    rw [he, conclude_answer, answer_map] at h
    rcases expandParts_blames parts _ hparts h with hremote | ⟨c, hc, he⟩
    · exact .inl hremote
    · exact .inr ⟨c, .part hf hk hc, he⟩
  | remote reference keys siblings hf hk hl he =>
    rw [he] at h
    cases h
    exact .inl ⟨reference, rfl⟩
  | cut reference keys siblings hf hk hl ha he =>
    rw [he, conclude_answer] at h
    cases h
  | followed reference keys siblings hf hk hl ha he =>
    rw [hf] at hparts
    rw [he, conclude_answer] at h
    cases hr : follow document depth reference (s.begin path) with
    | error e' t =>
      rw [hr] at h
      exact .inr ⟨⟨reference, s.begin path⟩, .here hf hk hl ha, by rw [Call.run, hr]; exact h⟩
    | ok v t =>
      rw [hr] at h
      cases v with
      | map p found =>
        have hsib := expandParts_blames siblings t hparts ((answer_map (merged reference found keys)).1 h)
        rcases hsib with hremote | ⟨c, hc, he⟩
        · exact .inl hremote
        · exact .inr ⟨c, .sibling depth hf hk hl ha hr hc, he⟩
      | _ => cases h

/-- A call that comes to an error has it from a call it asked for, unless a reference is remote or its own reference has no
target. -/
theorem run_blames {depth : Nat} {e : ExpandError} {c : Call} (h : (c.run document (depth + 1)).answer = .error e) :
    (∃ reference, e = .remote reference) ∨ target document c.reference = .error e ∨
      ∃ d, Calls document c d ∧ (d.run document depth).answer = .error e := by
  unfold Call.run at h
  cases ht : target document c.reference with
  | error e' =>
    rw [follow_error ht] at h
    exact .inr (.inl h)
  | ok node =>
    rw [follow_target ht] at h
    rcases within_blames node c.reference c.state h [] with hr | ⟨d, hd, he⟩
    · exact .inl hr
    · exact .inr (.inr ⟨d, ⟨node, ht, hd⟩, he⟩)

theorem answer_single {depth : Nat} {e : ExpandError} (node : Node) (path : String) (s : Expansion) :
    Outcome.answer (expandParts (follow document depth) [(path, node)] s) = .error e ↔
      Outcome.answer (within document depth node path s) = .error e := by
  rw [expandParts, within]
  cases expandNode (follow document depth) node path s with
  | ok v t => exact iff_of_false (fun h => by cases h) (fun h => by cases h)
  | error e' t => simp

/-- **A call that ends asks for calls that end at a smaller depth**, and their errors are its own. -/
theorem run_of_calls {depth : Nat} {c d : Call} (h : Calls document c d) (hend : Ended (c.run document (depth + 1))) :
    Ended (d.run document depth) ∧
      ∀ e, (d.run document depth).answer = .error e → (c.run document (depth + 1)).answer = .error e := by
  obtain ⟨node, ht, hd⟩ := h
  unfold Call.run at hend
  rw [follow_target ht] at hend
  have hend' : Ended (expandParts (follow document depth) [(c.reference, node)] c.state) :=
    fun h => hend ((answer_single node c.reference c.state).1 h)
  refine ⟨ended_of_asks hd hend', fun e he => ?_⟩
  rw [Call.run, follow_target ht]
  exact (answer_single node c.reference c.state).1 (answer_of_asks hd hend' he)

end Expansion
end TypedClient
