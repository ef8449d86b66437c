/-!
# Steps — taking stateful computations apart

A computation that comes to a value came to one in each of its parts.
-/
namespace TypedClient

variable {ε σ α β : Type}

theorem bind_eq_ok {m : EStateM ε σ α} {f : α → EStateM ε σ β} {s t : σ} {b : β} :
    (m >>= f) s = .ok b t ↔ ∃ a u, m s = .ok a u ∧ f a u = .ok b t := by
  change EStateM.bind m f s = _ ↔ _
  unfold EStateM.bind
  cases m s with
  | ok a u => exact ⟨fun h => ⟨a, u, rfl, h⟩, fun ⟨_, _, hm, h⟩ => by cases hm; exact h⟩
  | error e u => exact ⟨nofun, fun ⟨_, _, hm, _⟩ => nomatch hm⟩

/-- A computation goes on after a part that came to a value. -/
theorem bind_of_eq_ok {m : EStateM ε σ α} {f : α → EStateM ε σ β} {s t : σ} {a : α} (h : m s = .ok a t) :
    (m >>= f) s = f a t := by
  change EStateM.bind m f s = _
  unfold EStateM.bind
  rw [h]

/-- What holds of all that a computation comes to, if the first part comes to a value and if it does not. -/
theorem bind_cases {m : EStateM ε σ α} {f : α → EStateM ε σ β} {s : σ} {p : EStateM.Result ε σ β → Prop}
    (hok : ∀ a u, m s = .ok a u → p (f a u)) (herror : ∀ e u, m s = .error e u → p (.error e u)) : p ((m >>= f) s) := by
  change p (EStateM.bind m f s)
  unfold EStateM.bind
  cases h : m s with
  | ok a u => exact hok a u h
  | error e u => exact herror e u h

theorem pure_eq_ok {a b : α} {s t : σ} : (pure a : EStateM ε σ α) s = .ok b t ↔ a = b ∧ s = t := by
  change EStateM.Result.ok a s = _ ↔ _
  simp

theorem throw_ne_ok {e : ε} {a : α} {s t : σ} : (throw e : EStateM ε σ α) s ≠ .ok a t := nofun

theorem except_bind_eq_ok {x : Except ε α} {f : α → Except ε β} {b : β} (h : x >>= f = .ok b) :
    ∃ a, x = .ok a ∧ f a = .ok b := by
  cases x with
  | ok a => exact ⟨a, rfl, h⟩
  | error e => cases h

theorem not_exists_ok (e : ε) : ¬ ∃ a : α, (Except.error e : Except ε α) = .ok a := by
  rintro ⟨a, h⟩
  cases h

/-- Whether a computation came to a value. -/
def succeeds : EStateM.Result ε σ α → Bool
  | .ok .. => true
  | .error .. => false

theorem exists_of_succeeds {r : EStateM.Result ε σ α} (h : succeeds r = true) : ∃ a t, r = .ok a t := by
  cases r with
  | ok a t => exact ⟨a, t, rfl⟩
  | error e t => cases h

end TypedClient
