import TypedClient.Proofs.Expansion.Walk
/-!
# Alike — two expansions side by side

Two steps are **alike** if they give the same answer, make as many stubs, and end in states that are related as their states were
before.  What a relation of states needs for that is that begin, finish and remembering keep it (`Congruence`).
-/
namespace TypedClient
namespace Expansion

/-! ## States -/

@[simp] theorem mem_begin (path q : String) (s : Expansion) : q ∈ (s.begin path).active ↔ q = path ∨ q ∈ s.active := by
  unfold begin
  by_cases h : path ∈ s.active
  · simp only [List.contains_eq_mem, h, decide_true, if_true, iff_or_self]
    rintro rfl
    exact h
  · simp [h]

@[simp] theorem mem_finish (path q : String) (s : Expansion) : q ∈ (s.finish path).active ↔ q ≠ path ∧ q ∈ s.active := by
  simp [finish, and_comm]

/-! ## Relations of states -/

/-- **What every change of a state keeps.** -/
structure Congruence (R : Expansion → Expansion → Prop) : Prop where
  begin : ∀ {s t : Expansion} (path : String), R s t → R (s.begin path) (t.begin path)
  finish : ∀ {s t : Expansion} (path : String), R s t → R (s.finish path) (t.finish path)
  remember : ∀ {s t : Expansion} (path : String) (v : Node), R s t →
    R { s with finished := (path, v) :: s.finished } { t with finished := (path, v) :: t.finished }
  stubs : ∀ {s t : Expansion} (m n : Nat), R s t → R { s with stubs := m } { t with stubs := n }

/-- The same places are being expanded. -/
def SameActive (s t : Expansion) : Prop := ∀ q, q ∈ s.active ↔ q ∈ t.active

/-- The same places are being expanded, and the same is remembered. -/
def Same (s t : Expansion) : Prop := SameActive s t ∧ ∀ path, s.finished.lookup path = t.finished.lookup path

theorem sameActive_congruence : Congruence SameActive where
  begin path h q := by rw [mem_begin, mem_begin, h q]
  finish path h q := by rw [mem_finish, mem_finish, h q]
  remember _ _ h := h
  stubs _ _ h := h

theorem same_congruence : Congruence Same where
  begin path h := ⟨sameActive_congruence.begin path h.1, h.2⟩
  finish path h := ⟨sameActive_congruence.finish path h.1, h.2⟩
  remember path v h := by
    refine ⟨h.1, fun q => ?_⟩
    rw [List.lookup_cons, List.lookup_cons, h.2 q]
  stubs _ _ h := h

/-! ## Steps -/

/-- **Two steps that are alike**: the same answer, related states, and as many stubs made. -/
structure Alike {α : Type} (R : Expansion → Expansion → Prop) (s t : Expansion) (r u : Outcome α) : Prop where
  answer_eq : r.answer = u.answer
  related : R r.state u.state
  stubs_eq : r.state.stubs + t.stubs = u.state.stubs + s.stubs

namespace Alike

variable {α β : Type} {R : Expansion → Expansion → Prop} {s t : Expansion} {r u : Outcome α}

theorem ok (v : α) (h : R s t) : Alike R s t (.ok v s) (.ok v t) := ⟨rfl, h, Nat.add_comm _ _⟩

theorem error (e : ExpandError) (h : R s t) : Alike R s t (.error e s : Outcome α) (.error e t) :=
  ⟨rfl, h, Nat.add_comm _ _⟩

theorem cases (h : Alike R s t r u) :
    (∃ v s' t', r = .ok v s' ∧ u = .ok v t') ∨ ∃ e s' t', r = .error e s' ∧ u = .error e t' := by
  have ha := h.answer_eq
  cases r with
  | ok v s' =>
    cases u with
    | ok w t' =>
      cases ha
      exact .inl ⟨v, s', t', rfl, rfl⟩
    | error e t' => cases ha
  | error e s' =>
    cases u with
    | ok w t' => cases ha
    | error e' t' =>
      cases ha
      exact .inr ⟨e, s', t', rfl, rfl⟩

theorem map (h : Alike R s t r u) (g : α → β) : Alike R s t (r.map g) (u.map g) := by
  rcases h.cases with ⟨v, s', t', rfl, rfl⟩ | ⟨e, s', t', rfl, rfl⟩
  · exact ⟨rfl, h.related, h.stubs_eq⟩
  · exact ⟨rfl, h.related, h.stubs_eq⟩

theorem andThen {k l : α → Expansion → Outcome β} (h : Alike R s t r u)
    (hk : ∀ v s' t', r = .ok v s' → u = .ok v t' → R s' t' → Alike R s' t' (k v s') (l v t')) :
    Alike R s t (r.andThen k) (u.andThen l) := by
  have hst := h.stubs_eq
  rcases h.cases with ⟨v, s', t', rfl, rfl⟩ | ⟨e, s', t', rfl, rfl⟩
  · obtain ⟨ha', hR', hst'⟩ := hk v s' t' rfl rfl h.related
    refine ⟨ha', hR', ?_⟩
    have hst : s'.stubs + t.stubs = t'.stubs + s.stubs := hst
    show (k v s').state.stubs + t.stubs = (l v t').state.stubs + s.stubs
    omega
  · exact ⟨rfl, h.related, h.stubs_eq⟩

theorem stub (hR : Congruence R) (v : α) (h : R s t) :
    Alike R s t (.ok v { s with stubs := s.stubs + 1 }) (.ok v { t with stubs := t.stubs + 1 }) := by
  refine ⟨rfl, hR.stubs _ _ h, ?_⟩
  show s.stubs + 1 + t.stubs = t.stubs + 1 + s.stubs
  omega

theorem conclude (hR : Congruence R) {r u : Outcome Node} {path : String} (h : Alike R (s.begin path) (t.begin path) r u) :
    Alike R s t (conclude path s r) (conclude path t u) := by
  have hst := h.stubs_eq
  refine ⟨by rw [conclude_answer, conclude_answer, h.answer_eq], ?_, by rw [conclude_stubs, conclude_stubs]; exact hst⟩
  rcases h.cases with ⟨v, s', t', rfl, rfl⟩ | ⟨e, s', t', rfl, rfl⟩
  · -- both remember what was expanded or neither does
    have hst : s'.stubs + t.stubs = t'.stubs + s.stubs := hst
    by_cases hs : s'.stubs = s.stubs
    · have ht : t'.stubs = t.stubs := by omega
      rw [conclude_kept path v hs, conclude_kept path v ht]
      exact hR.remember path v (hR.finish path h.related)
    · have ht : t'.stubs ≠ t.stubs := by omega
      rw [conclude_stubbed path v hs, conclude_stubbed path v ht]
      exact hR.finish path h.related
  · exact hR.finish path h.related

end Alike

end Expansion
end TypedClient
