import Mathlib.Algebra.Group.Nat.Defs
import Mathlib.Data.List.Basic
import TypedClient.Document.Pointer
/-!
# Pointer — pointers one step longer

A pointer with one step more designates the child of what the pointer designates.  For a mapping this rests on the escape
(`unescape_escape`), for a list on numerals that read as the number they were written for (`readInt?_repr`).
-/
namespace TypedClient

namespace Text

/-! ## Splitting -/

theorem splitBy_ne_nil (p : Char → Bool) (cs : List Char) : splitBy p cs ≠ [] := by
  cases cs with
  | nil => exact List.cons_ne_nil _ _
  | cons c cs =>
    rw [splitBy]
    split
    · exact List.cons_ne_nil _ _
    · split <;> exact List.cons_ne_nil _ _

theorem splitBy_append (p : Char → Bool) (c : Char) (hc : p c = true) (ys : List Char) :
    ∀ xs : List Char, splitBy p (xs ++ c :: ys) = splitBy p xs ++ splitBy p ys
  | [] => by simp [splitBy, hc]
  | x :: xs => by
    have ih := splitBy_append p c hc ys xs
    rw [List.cons_append, splitBy, splitBy, ih]
    by_cases hx : p x = true
    · simp [hx]
    · simp only [hx]
      cases h : splitBy p xs with
      | nil => exact absurd h (splitBy_ne_nil p xs)
      | cons part more => rfl

theorem splitBy_of_none (p : Char → Bool) : ∀ xs : List Char, (∀ x ∈ xs, p x = false) → splitBy p xs = [xs]
  | [], _ => rfl
  | x :: xs, h => by
    rw [splitBy, splitBy_of_none p xs (fun y hy => h y (List.mem_cons_of_mem _ hy)), h x List.mem_cons_self]
    rfl

/-- The parts of a list have its elements, but none of those that part it. -/
theorem mem_of_mem_splitBy {p : Char → Bool} : ∀ {cs part : List Char}, part ∈ splitBy p cs →
    ∀ c ∈ part, c ∈ cs ∧ p c = false
  | [], part, h, c, hc => by
    rw [splitBy, List.mem_singleton] at h
    subst h
    cases hc
  | d :: rest, part, h, c, hc => by
    have ih : ∀ {part}, part ∈ splitBy p rest → ∀ c ∈ part, c ∈ d :: rest ∧ p c = false :=
      fun hpart c hc => (mem_of_mem_splitBy hpart c hc).imp_left (List.mem_cons_of_mem d)
    rw [splitBy] at h
    by_cases hd : p d = true
    · rw [if_pos hd] at h
      rcases List.mem_cons.1 h with rfl | h
      · cases hc
      · exact ih h c hc
    · rw [if_neg hd] at h
      cases hs : splitBy p rest with
      | nil => exact absurd hs (splitBy_ne_nil p rest)
      | cons first more =>
        rw [hs] at h ih
        rcases List.mem_cons.1 h with rfl | h
        · rcases List.mem_cons.1 hc with rfl | hc
          · exact ⟨List.mem_cons_self, Bool.not_eq_true _ ▸ hd⟩
          · exact ih List.mem_cons_self c hc
        · exact ih (List.mem_cons_of_mem _ h) c hc

/-! ## Numerals -/

theorem isDigit_bounds (c : Char) (h : c.isDigit = true) : 48 ≤ c.toNat ∧ c.toNat ≤ 57 := by
  simp only [Char.isDigit, Bool.and_eq_true, decide_eq_true_eq] at h
  exact h

theorem digitValue?_of_isDigit (c : Char) (h : c.isDigit = true) : digitValue? c = some (c.toNat - 48) := by
  obtain ⟨h1, h2⟩ := isDigit_bounds c h
  unfold digitValue? digitZeros
  rw [List.find?_cons_of_pos (by simp only [Bool.and_eq_true, decide_eq_true_eq]; omega)]
  rfl

theorem isNumberMargin_of_isDigit (c : Char) (h : c.isDigit = true) : isNumberMargin c = false := by
  obtain ⟨h1, h2⟩ := isDigit_bounds c h
  have hb : isBlank c = false := by
    simp only [isBlank, Bool.or_eq_false_iff, Bool.and_eq_false_iff, decide_eq_false_iff_not, beq_eq_false_iff_ne]
    omega
  simp [isNumberMargin, hb]

theorem digits?_of_isDigit : ∀ cs : List Char, cs ≠ [] → (∀ c ∈ cs, c.isDigit = true) →
    digits? cs = some (cs.map fun c => c.toNat - 48)
  | [], h, _ => absurd rfl h
  | [c], _, h => by
    rw [digits?, digitValue?_of_isDigit c (h c List.mem_cons_self)]
    rfl
  | c :: d :: cs, _, h => by
    have hd : d ≠ '_' := fun hd => by have := h d (by simp); rw [hd] at this; cases this
    have ih := digits?_of_isDigit (d :: cs) (List.cons_ne_nil _ _) (fun x hx => h x (List.mem_cons_of_mem _ hx))
    rw [digits?, digitValue?_of_isDigit c (h c List.mem_cons_self), ih]
    · rfl
    · intro hr
      cases hr
    · intro rest hr
      exact hd (List.cons.inj hr).1

theorem dropEnds_of_none (p : Char → Bool) (cs : List Char) (h : ∀ c ∈ cs, p c = false) : dropEnds p cs = cs := by
  have hall : ∀ l : List Char, (∀ c ∈ l, p c = false) → l.dropWhile p = l := by
    intro l hl
    cases l with
    | nil => rfl
    | cons c l => rw [List.dropWhile_cons_of_neg (by simp [hl c List.mem_cons_self])]
  unfold dropEnds dropTail
  rw [hall cs h, hall cs.reverse (fun c hc => h c (List.mem_reverse.1 hc)), List.reverse_reverse]

theorem ofDigits_map (cs : List Char) (n : Nat) :
    (cs.map fun c => c.toNat - 48).foldl (fun n d => 10 * n + d) n = Nat.ofDigitChars 10 cs n := by
  rw [List.foldl_map]
  rfl

theorem isDigit_of_mem_repr (n : Nat) (c : Char) (h : c ∈ (Nat.repr n).toList) : c.isDigit = true := by
  rw [Nat.toList_repr] at h
  exact Nat.isDigit_of_mem_toDigits (by decide) (by decide) h

theorem repr_toList_ne_nil (n : Nat) : (Nat.repr n).toList ≠ [] := by
  rw [Nat.toList_repr]
  exact Nat.toDigits_ne_nil

theorem isNumeral_repr (n : Nat) : isNumeral (Nat.repr n) = true := by
  have hne : (Nat.repr n).isEmpty = false := by
    rw [← Bool.not_eq_true, String.isEmpty_iff]
    intro h
    exact repr_toList_ne_nil n (by rw [h]; rfl)
  rw [isNumeral, hne, Bool.not_false, Bool.true_and, List.all_eq_true]
  intro c hc
  rw [isDigit, digitValue?_of_isDigit c (isDigit_of_mem_repr n c hc)]
  rfl

/-- **A numeral with few enough digits reads as the number it was written for.** -/
theorem readInt?_repr (n : Nat) (h : n < 10 ^ digitLimit) : readInt? (Nat.repr n) = some (n : Int) := by
  have hd : ∀ c ∈ (Nat.repr n).toList, c.isDigit = true := isDigit_of_mem_repr n
  have hread : readNat? (Nat.repr n).toList = some n := by
    have hlen : (Nat.repr n).toList.length ≤ digitLimit := by
      rw [String.length_toList]
      exact (Nat.length_repr_le_iff (by decide)).2 h
    rw [readNat?, digits?_of_isDigit _ (repr_toList_ne_nil n) hd]
    simp only [List.length_map, hlen, if_true, ofDigits, ofDigits_map]
    rw [Nat.toList_repr, Nat.ofDigitChars_ten_toDigits]
  unfold readInt?
  rw [dropEnds_of_none _ _ (fun c hc => isNumberMargin_of_isDigit c (hd c hc))]
  split
  · rename_i cs hcs
    have := hd '+' (by rw [hcs]; exact List.mem_cons_self)
    cases this
  · rename_i cs hcs
    have := hd '-' (by rw [hcs]; exact List.mem_cons_self)
    cases this
  · rw [hread]
    rfl

end Text

namespace Pointer

/-! ## The escape -/

theorem unescapeChars_cons (c : Char) (cs : List Char) (h : c ≠ '~') :
    unescapeChars (c :: cs) = c :: unescapeChars cs := by
  rw [unescapeChars]
  · exact fun _ hc _ => h hc
  · exact fun _ hc _ => h hc

theorem unescapeChars_escape : ∀ cs : List Char, unescapeChars (cs.flatMap escapeChar) = cs
  | [] => rfl
  | c :: cs => by
    have ih := unescapeChars_escape cs
    rw [List.flatMap_cons]
    by_cases h1 : c = '~'
    · subst h1
      simp [escapeChar, unescapeChars, ih]
    · by_cases h2 : c = '/'
      · subst h2
        simp [escapeChar, unescapeChars, ih]
      · simp only [escapeChar, h1, h2, if_false, List.singleton_append]
        rw [unescapeChars_cons c _ h1, ih]

/-- **Escaping loses nothing.** -/
theorem unescape_escape (token : String) : unescape (escape token) = token := by
  unfold unescape escape
  rw [String.toList_ofList, unescapeChars_escape, String.ofList_toList]

theorem unescapeChars_of_none : ∀ cs : List Char, '~' ∉ cs → unescapeChars cs = cs
  | [], _ => rfl
  | c :: cs, h => by
    have hc : c ≠ '~' := fun hc => h (by rw [hc]; exact List.mem_cons_self)
    rw [unescapeChars_cons c cs hc, unescapeChars_of_none cs (fun hm => h (List.mem_cons_of_mem _ hm))]

theorem slash_not_mem_escape (token : String) : '/' ∉ (escape token).toList := by
  unfold escape
  rw [String.toList_ofList, List.mem_flatMap]
  rintro ⟨c, -, hc⟩
  unfold escapeChar at hc
  split at hc
  · simp at hc
  · split at hc
    · simp at hc
    · rename_i h
      exact h (List.mem_singleton.1 hc).symm

/-! ## One step more -/

theorem tokens?_append (pointer : String) (cs : List Char) (hcs : '/' ∉ cs) (ts : List String)
    (h : tokens? pointer = some ts) :
    tokens? (pointer ++ "/" ++ String.ofList cs) = some (ts ++ [unescape (String.ofList cs)]) := by
  have hsplit : Text.splitBy (· == '/') cs = [cs] :=
    Text.splitBy_of_none _ cs (fun c hc => by simp only [beq_eq_false_iff_ne]; rintro rfl; exact hcs hc)
  have hlist : (pointer ++ "/" ++ String.ofList cs).toList = pointer.toList ++ '/' :: cs := by
    rw [String.toList_append, String.toList_append, String.toList_ofList, List.append_assoc]
    simp
  unfold tokens? at h ⊢
  rw [hlist]
  split at h
  · rename_i hp
    simp only [Option.some.injEq] at h
    subst h
    rw [hp]
    simp [hsplit]
  · rename_i rest hp
    simp only [Option.some.injEq] at h
    subst h
    rw [hp]
    simp [Text.splitBy_append _ _ _ cs rest, hsplit]
  · cases h

theorem tokens?_child (pointer key : String) (ts : List String) (h : tokens? pointer = some ts) :
    tokens? (child pointer key) = some (ts ++ [key]) := by
  have := tokens?_append pointer (escape key).toList (slash_not_mem_escape key) ts h
  rwa [String.ofList_toList, unescape_escape] at this

theorem tokens?_item (pointer : String) (index : Nat) (ts : List String) (h : tokens? pointer = some ts) :
    tokens? (item pointer index) = some (ts ++ [Nat.repr index]) := by
  have hslash : '/' ∉ (Nat.repr index).toList := fun hm => by cases Text.isDigit_of_mem_repr index '/' hm
  have htilde : '~' ∉ (Nat.repr index).toList := fun hm => by cases Text.isDigit_of_mem_repr index '~' hm
  have := tokens?_append pointer (Nat.repr index).toList hslash ts h
  rwa [String.ofList_toList, unescape, unescapeChars_of_none _ htilde, String.ofList_toList] at this

theorem descend_append : ∀ (ts us : List String) (node next : Node), descend node ts = .ok (some next) →
    descend node (ts ++ us) = descend next us
  | [], us, node, next, h => by
    simp only [descend, Except.ok.injEq, Option.some.injEq] at h
    rw [List.nil_append, h]
  | t :: ts, us, node, next, h => by
    rw [List.cons_append, descend]
    rw [descend] at h
    split at h
    · rename_i mid hm
      exact descend_append ts us mid next h
    · rename_i other hne
      exact absurd h (hne next)

theorem resolve_step (document node : Node) (pointer longer token : String)
    (hl : ∀ ts, tokens? pointer = some ts → tokens? longer = some (ts ++ [token]))
    (h : resolve document pointer = .ok (some node)) : resolve document longer = step node token := by
  unfold resolve at h ⊢
  cases ht : tokens? pointer with
  | none => rw [ht] at h; cases h
  | some ts =>
    rw [ht] at h
    rw [hl ts ht]
    simp only at h ⊢
    rw [descend_append ts [token] document node h]
    cases hs : step node token with
    | error e => simp [descend, hs]
    | ok o => cases o <;> simp [descend, hs]

/-- **The pointer of an entry designates its value.** -/
theorem resolve_child (document : Node) (pointer key : String) (path : Option String) (entries : List (String × Node))
    (x : Node) (h : resolve document pointer = .ok (some (.map path entries))) (hx : entries.lookup key = some x) :
    resolve document (child pointer key) = .ok (some x) := by
  rw [resolve_step document _ pointer (child pointer key) key (tokens?_child pointer key) h, step, hx]

/-- **The pointer of an item designates it**, unless its index has more digits than are read. -/
theorem resolve_item (document : Node) (pointer : String) (index : Nat) (path : Option String) (items : List Node)
    (x : Node) (hi : index < 10 ^ Text.digitLimit) (h : resolve document pointer = .ok (some (.list path items)))
    (hx : items[index]? = some x) : resolve document (item pointer index) = .ok (some x) := by
  rw [resolve_step document _ pointer (item pointer index) (Nat.repr index) (tokens?_item pointer index) h, step]
  simp only [Text.isNumeral_repr, if_true, Text.readInt?_repr index hi, Int.toNat_natCast, hx]

theorem resolve_root (document : Node) : resolve document "#" = .ok (some document) := rfl

/-! ## Lengths -/

theorem length_lt_child (pointer key : String) : pointer.length < (child pointer key).length := by
  unfold child
  rw [String.length_append, String.length_append]
  have : "/".length = 1 := rfl
  omega

theorem length_lt_item (pointer : String) (index : Nat) : pointer.length < (item pointer index).length := by
  unfold item
  rw [String.length_append, String.length_append]
  have : "/".length = 1 := rfl
  omega

end Pointer
end TypedClient
