import TypedClient.Proofs.Grammar.Tokens
import TypedClient.Emit.Typedef
/-!
# Literals — the atoms that values are printed as

Whatever value a document holds, its literal is one atom: a string keeps its marks between its quotes, where each quote and
backslash is escaped, a list or an object keeps them between its brackets, and a number has none.  Names with the characters
of identifiers are atoms, too.
-/
namespace TypedClient
namespace Grammar

open Scan (start step)

/-- Whether a text has the characters of atoms only. -/
def Atomic (text : String) : Prop := ∀ c ∈ text.toList, isAtomChar c = true

instance (text : String) : Decidable (Atomic text) := List.decidableBAll (isAtomChar · = true) text.toList

variable {text : String} {c : Char} {cs : List Char}

theorem Atomic.kept (h : Atomic text) : Kept 0 text.toList :=
  kept_of_isAtomChar h

theorem Atomic.append {a b : String} (ha : Atomic a) (hb : Atomic b) : Atomic (a ++ b) := by
  intro c hc
  rw [String.toList_append, List.mem_append] at hc
  exact hc.elim (ha c) (hb c)

theorem atomic_ofList (h : ∀ c ∈ cs, isAtomChar c = true) : Atomic (String.ofList cs) := by
  intro c hc
  rw [String.toList_ofList] at hc
  exact h c hc

/-! ## Names -/

theorem isAtomChar_of_isIdentifierChar (h : Naming.isIdentifierChar c = true) : isAtomChar c = true :=
  Naming.of_isIdentifierChar (p := fun c => isAtomChar c = true) (by decide) h

theorem atomic_of_plain {name : String} (h : Naming.Plain name) : Atomic name :=
  fun c hc => isAtomChar_of_isIdentifierChar (h c hc)

/-! ## Numbers -/

theorem isAtomChar_of_isDigit (h : c.isDigit = true) : isAtomChar c = true := by
  refine isAtomChar_of_isIdentifierChar ?_
  simp [Naming.isIdentifierChar, Char.isAlphanum, h]

theorem isAtomChar_of_mem_repr (n : Nat) : ∀ c ∈ (Nat.repr n).toList, isAtomChar c = true :=
  fun c hc => isAtomChar_of_isDigit (Text.isDigit_of_mem_repr n c hc)

theorem atomic_toString (i : Int) : Atomic (toString i) := by
  cases i with
  | ofNat n => exact isAtomChar_of_mem_repr n
  | negSucc n => exact Atomic.append (a := "-") (by decide) (isAtomChar_of_mem_repr (n + 1))

theorem isAtom_toString (i : Int) : IsAtom (toString i) := by
  refine ⟨(atomic_toString i).kept, fun h => ?_⟩
  cases i with
  | ofNat n => exact Text.repr_toList_ne_nil n (String.toList_eq_nil_iff.2 h)
  | negSucc n => exact absurd (String.append_eq_empty_iff.1 h).1 (by decide)

theorem atomic_ofList_append {ds : List Char} (hc : ∀ c ∈ cs, isAtomChar c = true) (hd : ∀ c ∈ ds, isAtomChar c = true) :
    Atomic (String.ofList (cs ++ ds)) :=
  atomic_ofList fun c hm => (List.mem_append.1 hm).elim (hc c) (hd c)

theorem isAtomChar_of_mem_zeros (k : Nat) : ∀ c ∈ List.replicate k '0', isAtomChar c = true := by
  intro c hc
  rw [List.eq_of_mem_replicate hc]
  decide

/-- The digits of a power, with a zero before a single one. -/
theorem atomic_padded (n : Nat) :
    Atomic (String.ofList (if (Nat.repr n).toList.length < 2 then '0' :: (Nat.repr n).toList else (Nat.repr n).toList)) := by
  refine atomic_ofList ?_
  split
  · exact List.forall_mem_cons.2 ⟨by decide, isAtomChar_of_mem_repr n⟩
  · exact isAtomChar_of_mem_repr n

theorem atomic_toText (x : Binary64) : Atomic x.toText := by
  cases x with
  | nan => decide
  | infinite negative => cases negative <;> decide
  | finite negative m e =>
    have hsign : Atomic (if negative then "-" else "") := by cases negative <;> decide
    unfold Binary64.toText
    dsimp only
    split
    · exact hsign.append (by decide)
    · generalize Binary64.dropZeros 17 (Binary64.shortest m e) = x
      obtain ⟨n, s⟩ := x
      have hds := isAtomChar_of_mem_repr n
      dsimp only
      generalize (Nat.repr n).toList = ds at hds ⊢
      have htake : ∀ k, Atomic (String.ofList (ds.take k)) :=
        fun k => atomic_ofList fun c hc => hds c (List.mem_of_mem_take hc)
      have hdrop : ∀ k, Atomic (String.ofList (ds.drop k)) :=
        fun k => atomic_ofList fun c hc => hds c (List.mem_of_mem_drop hc)
      -- zeros before the digits, zeros or a point behind them, or a power of ten
      split
      · split
        · exact (hsign.append (by decide)).append (atomic_ofList_append (isAtomChar_of_mem_zeros _) hds)
        · split
          · exact (hsign.append (atomic_ofList_append hds (isAtomChar_of_mem_zeros _))).append (by decide)
          · exact ((hsign.append (htake _)).append (by decide)).append (hdrop _)
      · have hfraction : Atomic (if ds.length = 1 then "" else "." ++ String.ofList (ds.drop 1)) := by
          split
          · decide
          · exact Atomic.append (by decide) (hdrop 1)
        have hpower : Atomic (if s + (ds.length : Int) - 1 < 0 then "-" else "+") := by split <;> decide
        exact (((hsign.append ((htake 1).append hfraction)).append (by decide)).append hpower).append (atomic_padded _)

theorem toText_ne_empty (x : Binary64) : x.toText ≠ "" := by
  cases x with
  | nan => decide
  | infinite negative => cases negative <;> decide
  | finite negative m e =>
    unfold Binary64.toText
    dsimp only
    repeat' split
    all_goals simp [String.append_eq_empty_iff]

theorem isAtom_floatLiteral (x : Binary64) : IsAtom (Emit.floatLiteral x) := by
  cases x with
  | nan => exact ⟨Atomic.kept (by decide), by decide⟩
  | infinite negative => cases negative <;> exact ⟨Atomic.kept (by decide), by decide⟩
  | finite negative m e => exact ⟨(atomic_toText (.finite negative m e)).kept, toText_ne_empty (.finite negative m e)⟩

/-! ## Strings -/

theorem quoted_hexDigits (width n : Nat) : Quoted (Text.hexDigits width n) := by
  refine quoted_of_ne fun c hc => ?_
  have hdigit : ∀ k : Fin 16, Text.hexDigit k ≠ '"' ∧ Text.hexDigit k ≠ '\\' := by decide
  induction width generalizing n with
  | zero => cases hc
  | succ width ih =>
    rw [Text.hexDigits, List.mem_append, List.mem_singleton] at hc
    rcases hc with hc | rfl
    · exact ih _ hc
    · exact hdigit ⟨n % 16, Nat.mod_lt n (by decide)⟩

theorem quoted_escapeQuoted (c : Char) : Quoted (Text.escapeQuoted c) := by
  rcases Text.escapeQuoted_cases c with ⟨h, -, hquote, hback⟩ | ⟨x, h, -⟩ | ⟨h, -⟩
  · rw [h]
    exact quoted_singleton hquote hback
  · rw [h]
    exact quoted_escape x
  · rw [h]
    exact (quoted_escape 'u').append (quoted_hexDigits 4 _)

theorem quoted_escapeAscii (c : Char) : Quoted (Text.escapeAscii c) := by
  unfold Text.escapeAscii
  split
  · exact quoted_escapeQuoted c
  unfold Text.escapeUnits
  dsimp only
  split
  · exact (quoted_escape 'u').append (quoted_hexDigits 4 _)
  · exact ((quoted_escape 'u').append (quoted_hexDigits 4 _)).append ((quoted_escape 'u').append (quoted_hexDigits 4 _))

/-- **A string is an atom**, whatever is in it. -/
theorem isAtom_quote (text : String) : IsAtom (Text.quote text) := by
  unfold Text.quote
  refine ⟨?_, by simp⟩
  rw [String.toList_ofList]
  exact Quoted.kept (quoted_flatMap quoted_escapeQuoted _)

theorem isAtom_quoteAscii (text : String) : IsAtom (Text.quoteAscii text) := by
  unfold Text.quoteAscii
  refine ⟨?_, by simp⟩
  rw [String.toList_ofList]
  exact Quoted.kept (quoted_flatMap quoted_escapeAscii _)

/-! ## Values -/

theorem isAtom_atomLiteral {quote : String → String} (hquote : ∀ s, IsAtom (quote s)) {a : Atom}
    (h : Emit.atomLiteral quote a = .ok text) : IsAtom text := by
  cases a with
  | str s =>
    cases h
    exact hquote s
  | bool b =>
    cases h
    cases b <;> exact ⟨Atomic.kept (by decide), by decide⟩
  | null =>
    cases h
    exact ⟨Atomic.kept (by decide), by decide⟩
  | int i =>
    unfold Emit.atomLiteral Text.intText? at h
    dsimp only at h
    split at h
    · rename_i hi
      split at hi
      · cases hi
        cases h
        exact isAtom_toString i
      · cases hi
    · cases h
  | float x =>
    cases h
    exact isAtom_floatLiteral x
  | day _ => cases h
  | moment _ => cases h
  | bytes _ => cases h

theorem kept_intercalate : ∀ {texts : List String}, (∀ s ∈ texts, Kept 1 s.toList) →
    Kept 1 (", ".intercalate texts).toList
  | [], _ => kept_nil 1
  | [s], h => h s List.mem_cons_self
  | s :: t :: texts, h => by
    have hcomma : Kept 1 ", ".toList := kept_inside (by simp [opens, closes])
    rw [String.intercalate_cons_cons, String.toList_append, String.toList_append]
    exact ((h s List.mem_cons_self).append hcomma).append
      (kept_intercalate fun u hu => h u (List.mem_cons_of_mem _ hu))

theorem isAtom_keyLiteral {a : Atom} (h : Emit.keyLiteral a = .ok text) : IsAtom text := by
  unfold Emit.keyLiteral at h
  split at h
  · cases h
    exact isAtom_quoteAscii _
  · cases hs : Emit.atomLiteral id a with
    | error e =>
      rw [hs] at h
      cases h
    | ok s =>
      rw [hs] at h
      cases h
      exact isAtom_quoteAscii s

/-- **A list or an object is an atom** if what it holds is kept together. -/
theorem isAtom_bracketed {o e inner : String} {c d : Char} (ho : o.toList = [c]) (he : e.toList = [d])
    (hc : opens c = true) (hd : closes d = true) (h : Kept 1 inner.toList) : IsAtom (o ++ inner ++ e) := by
  have hchars : (o ++ inner ++ e).toList = c :: inner.toList ++ [d] := by simp [ho, he]
  refine ⟨hchars ▸ h.bracketed hc hd, fun hempty => ?_⟩
  rw [hempty] at hchars
  cases hchars

mutual
/-- **The literal of a value is an atom**, and so are those of its parts. -/
theorem isAtom_datumLiteral : ∀ (d : Datum) {text : String}, Emit.datumLiteral d = .ok text → IsAtom text
  | .atom a, text, h => isAtom_atomLiteral isAtom_quoteAscii h
  | .list items, text, h => by
    unfold Emit.datumLiteral at h
    cases hitems : Emit.itemLiterals items <;> rw [hitems] at h <;> cases h
    refine isAtom_bracketed rfl rfl (by decide) (by decide) (kept_intercalate fun s hs => ?_)
    exact (isAtom_itemLiterals items hitems s hs).kept.inner
  | .map entries, text, h => by
    unfold Emit.datumLiteral at h
    cases hentries : Emit.entryLiterals entries <;> rw [hentries] at h <;> cases h
    exact isAtom_bracketed rfl rfl (by decide) (by decide) (kept_intercalate (kept_entryLiterals entries hentries))
  | .pair a b, text, h => by
    unfold Emit.datumLiteral at h
    cases ha : Emit.datumLiteral a <;> cases hb : Emit.datumLiteral b <;> rw [ha, hb] at h <;> cases h
    rename_i s t
    have hparts : ∀ u ∈ [s, t], Kept 1 u.toList := by
      intro u hu
      rcases List.mem_pair.1 hu with rfl | rfl
      · exact (isAtom_datumLiteral a ha).kept.inner
      · exact (isAtom_datumLiteral b hb).kept.inner
    have hpair : "[" ++ s ++ ", " ++ t ++ "]" = "[" ++ ", ".intercalate [s, t] ++ "]" := by
      rw [String.intercalate_cons_cons, String.intercalate_singleton]
      simp only [String.append_assoc]
    rw [hpair]
    exact isAtom_bracketed rfl rfl (by decide) (by decide) (kept_intercalate hparts)
  | .set _, text, h => nomatch h
  | .again _, text, h => nomatch h

theorem isAtom_itemLiterals : ∀ (items : List Datum) {texts : List String}, Emit.itemLiterals items = .ok texts →
    ∀ s ∈ texts, IsAtom s
  | [], texts, h, s, hs => by
    cases h
    cases hs
  | x :: xs, texts, h, s, hs => by
    unfold Emit.itemLiterals at h
    cases hx : Emit.datumLiteral x <;> cases hxs : Emit.itemLiterals xs <;> rw [hx, hxs] at h <;> cases h
    rcases List.mem_cons.1 hs with rfl | hs
    · exact isAtom_datumLiteral x hx
    · exact isAtom_itemLiterals xs hxs s hs

theorem kept_entryLiterals : ∀ (entries : List (Atom × Datum)) {texts : List String},
    Emit.entryLiterals entries = .ok texts → ∀ s ∈ texts, Kept 1 s.toList
  | [], texts, h, s, hs => by
    cases h
    cases hs
  | (k, x) :: xs, texts, h, s, hs => by
    unfold Emit.entryLiterals at h
    cases hk : Emit.keyLiteral k <;> cases hx : Emit.datumLiteral x <;> cases hxs : Emit.entryLiterals xs <;>
      rw [hk, hx, hxs] at h <;> cases h
    rcases List.mem_cons.1 hs with rfl | hs
    · have hcolon : Kept 1 ": ".toList := kept_inside (by simp [opens, closes])
      rw [String.toList_append, String.toList_append]
      exact ((isAtom_keyLiteral hk).kept.inner.append hcolon).append (isAtom_datumLiteral x hx).kept.inner
    · exact kept_entryLiterals xs hxs s hs
end

/-- **Whatever is enumerated is written as an atom.** -/
theorem isAtom_literal {node : Node} (h : Emit.literal node = .ok text) : IsAtom text := by
  unfold Emit.literal at h
  split at h
  · exact isAtom_atomLiteral isAtom_quote h
  · exact isAtom_datumLiteral _ h

end Grammar
end TypedClient
