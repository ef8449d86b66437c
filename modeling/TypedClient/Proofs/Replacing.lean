import Mathlib.Data.List.Basic
/-!
# Replacing — one text in the place of another

Every occurrence of a character, or of a pair of characters, is replaced, from the front and without overlap.
-/
namespace TypedClient
namespace Text

/-- The characters with `new` in the place of every `old`. -/
def replaceChar (old : Char) (new : List Char) (cs : List Char) : List Char :=
  cs.flatMap fun c => if c = old then new else [c]

/-- The characters with `new` in the place of every pair of `a` and `b`, found from the front. -/
def replacePair (a b : Char) (new : List Char) : List Char → List Char
  | c :: d :: rest =>
    if c = a ∧ d = b then new ++ replacePair a b new rest else c :: replacePair a b new (d :: rest)
  | cs => cs

variable {a b c d old : Char} {new cs : List Char}

theorem replaceChar_cons (old : Char) (new : List Char) (c : Char) (cs : List Char) :
    replaceChar old new (c :: cs) = (if c = old then new else [c]) ++ replaceChar old new cs := by
  rw [replaceChar, List.flatMap_cons]
  rfl

theorem replacePair_pair (a b : Char) (new cs : List Char) :
    replacePair a b new (a :: b :: cs) = new ++ replacePair a b new cs := by
  rw [replacePair, if_pos ⟨rfl, rfl⟩]

theorem replacePair_cons (h : ¬ (c = a ∧ cs.head? = some b)) :
    replacePair a b new (c :: cs) = c :: replacePair a b new cs := by
  cases cs with
  | nil => rfl
  | cons d cs => rw [replacePair, if_neg (by simpa using h)]

/-- Where a replacement puts a character at the front, it stood there, or the replacement begins with it. -/
theorem head?_replaceChar (h : (replaceChar old new cs).head? = some d) (hnew : new ≠ []) :
    cs.head? = some d ∨ new.head? = some d := by
  obtain ⟨n, new, rfl⟩ := List.exists_cons_of_ne_nil hnew
  cases cs with
  | nil => cases h
  | cons c cs =>
    rw [replaceChar_cons] at h
    by_cases hc : c = old
    · rw [if_pos hc] at h
      exact .inr h
    · rw [if_neg hc] at h
      exact .inl h

theorem head?_replacePair (h : (replacePair a b new cs).head? = some d) (hnew : new ≠ []) :
    cs.head? = some d ∨ new.head? = some d := by
  obtain ⟨n, new, rfl⟩ := List.exists_cons_of_ne_nil hnew
  cases cs with
  | nil => cases h
  | cons c cs =>
    by_cases hpair : c = a ∧ cs.head? = some b
    · obtain ⟨rfl, hb⟩ := hpair
      cases cs with
      | nil => cases hb
      | cons e cs =>
        cases hb
        rw [replacePair_pair] at h
        exact .inr h
    · rw [replacePair_cons hpair] at h
      exact .inl h

end Text

end TypedClient
