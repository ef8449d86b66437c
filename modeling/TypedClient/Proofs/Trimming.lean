import Mathlib.Data.List.DropRight
import Mathlib.Data.List.TakeWhile
import TypedClient.Text.Blank
/-!
# Trimming — what is dropped at the ends of a text

A text loses at its ends the characters of one kind, and those only: what is left is one piece of it (`infix_dropEnds`), begins
and ends with characters of another kind (`head?_dropEnds`, `getLast?_dropEnds`), and is all of it if the text does so itself
(`dropEnds_eq_self_iff`).
-/
namespace TypedClient
namespace Text

variable {p : Char → Bool} {cs : List Char} {c : Char}

theorem dropTail_eq_rdropWhile (p : Char → Bool) (cs : List Char) : dropTail p cs = cs.rdropWhile p := rfl

/-- **What is dropped at the end** reaches back to the last character that stays. -/
theorem dropTail_append_cons (hc : p c = false) (before behind : List Char) :
    dropTail p (before ++ c :: behind) = before ++ c :: dropTail p behind := by
  simp only [dropTail_eq_rdropWhile]
  induction behind using List.reverseRecOn with
  | nil => rw [List.rdropWhile_concat_neg _ _ _ (by simp [hc]), List.rdropWhile_nil]
  | append_singleton behind d ih =>
    rw [← List.cons_append, ← List.append_assoc, List.rdropWhile_concat, List.rdropWhile_concat, ih]
    split
    · rfl
    · rw [List.append_assoc, List.cons_append]

theorem infix_dropEnds (p : Char → Bool) (cs : List Char) : dropEnds p cs <:+: cs :=
  (List.rdropWhile_prefix p _).isInfix.trans (List.dropWhile_suffix p).isInfix

theorem mem_of_mem_dropEnds (h : c ∈ dropEnds p cs) : c ∈ cs :=
  (infix_dropEnds p cs).subset h

theorem head?_dropEnds (h : (dropEnds p cs).head? = some c) : p c = false := by
  obtain ⟨rest, hrest⟩ : dropEnds p cs <+: cs.dropWhile p := List.rdropWhile_prefix p _
  have hhead : (cs.dropWhile p).head? = some c := by
    rw [← hrest, List.head?_append, h]
    rfl
  have := List.head?_dropWhile_not p cs
  rw [hhead] at this
  exact this

theorem getLast?_dropTail (h : (dropTail p cs).getLast? = some c) : p c = false := by
  have hne : dropTail p cs ≠ [] := by
    intro hnil
    rw [hnil] at h
    cases h
  have hlast := List.rdropWhile_last_not p cs hne
  rw [Bool.not_eq_true] at hlast
  have hc : (dropTail p cs).getLast hne = c := Option.some.inj ((List.getLast?_eq_some_getLast hne).symm.trans h)
  rw [← hc]
  exact hlast

theorem getLast?_dropEnds (h : (dropEnds p cs).getLast? = some c) : p c = false :=
  getLast?_dropTail h

theorem dropEnds_ne_nil (hmem : c ∈ cs) (hc : p c = false) : dropEnds p cs ≠ [] := by
  have hkept : c ∈ cs.dropWhile p := by
    rw [← List.takeWhile_append_dropWhile (p := p) (l := cs), List.mem_append] at hmem
    refine hmem.resolve_left fun htaken => ?_
    rw [List.mem_takeWhile_imp htaken] at hc
    cases hc
  intro hnil
  rw [dropEnds, dropTail, List.reverse_eq_nil_iff, List.dropWhile_eq_nil_iff] at hnil
  rw [hnil c (List.mem_reverse.2 hkept)] at hc
  cases hc

theorem dropWhile_eq_self_iff_head? : cs.dropWhile p = cs ↔ ∀ c ∈ cs.head?, p c = false := by
  rw [List.dropWhile_eq_self_iff]
  cases cs with
  | nil => exact ⟨nofun, nofun⟩
  | cons _ _ => simp

/-- **Nothing is dropped at the ends exactly if what stands there stays.** -/
theorem dropEnds_eq_self_iff : dropEnds p cs = cs ↔
    (∀ c ∈ cs.head?, p c = false) ∧ ∀ c ∈ cs.getLast?, p c = false := by
  have htail : ∀ ds : List Char, (dropTail p ds).length ≤ ds.length := by
    intro ds
    rw [dropTail, List.length_reverse]
    exact (List.dropWhile_suffix p).length_le.trans_eq List.length_reverse
  rw [← dropWhile_eq_self_iff_head?, ← List.head?_reverse, ← dropWhile_eq_self_iff_head?, dropEnds]
  constructor
  · intro h
    have hfront : cs.dropWhile p = cs :=
      (List.dropWhile_suffix p).eq_of_length_le (by rw [← congrArg List.length h]; exact htail _)
    rw [hfront, dropTail] at h
    exact ⟨hfront, List.reverse_eq_iff.1 h⟩
  · rintro ⟨hfront, hback⟩
    rw [hfront, dropTail, hback, List.reverse_reverse]

/-- **What stays is all that is left** of it between what is dropped. -/
theorem dropEnds_padded {front back : List Char} (hfront : ∀ c ∈ front, p c = true) (hback : ∀ c ∈ back, p c = true)
    (hne : cs ≠ []) (hhead : ∀ c ∈ cs.head?, p c = false) (hlast : ∀ c ∈ cs.getLast?, p c = false) :
    dropEnds p (front ++ cs ++ back) = cs := by
  obtain ⟨before, last, rfl⟩ := (List.eq_nil_or_concat' cs).resolve_left hne
  have hkept : (before ++ [last] ++ back).dropWhile p = before ++ [last] ++ back := by
    refine dropWhile_eq_self_iff_head?.2 fun c hc => hhead c ?_
    rwa [List.head?_append_of_ne_nil _ hne] at hc
  have hdropped : dropTail p back = [] := by
    rw [dropTail_eq_rdropWhile, List.rdropWhile_eq_nil_iff]
    exact hback
  rw [dropEnds, List.append_assoc front, List.dropWhile_append_of_pos hfront, hkept, List.append_assoc,
    List.singleton_append, dropTail_append_cons (hlast last (by simp)), hdropped]

end Text
end TypedClient
