import TypedClient.Proofs.Linking.Names
/-!
# Tokens — the characters of a type's text

The text of a type is cut into atoms, which are keywords, names and literals, and the marks that join and enclose them.  A
literal is one atom, whatever stands between its quotes or brackets: no mark in it counts (`IsAtom.scan?`).  Texts that have
tokens have them in one another's company, too, with an operator between them (`scan?_operator`) or as the argument of
`Array` (`scan?_array`).
-/
namespace TypedClient
namespace Grammar

/-- A token of a type's text. -/
inductive Token where
  /-- A keyword, a name or a literal. -/
  | atom (text : String)
  | bar
  | amp
  | less
  | greater
  | left
  | right
  deriving DecidableEq

/-- The token that a character is by itself. -/
def mark? : Char → Option Token
  | '|' => some .bar
  | '&' => some .amp
  | '<' => some .less
  | '>' => some .greater
  | '(' => some .left
  | ')' => some .right
  | _ => none

/-- Whether the character opens a list or an object. -/
def opens (c : Char) : Bool := c == '[' || c == '{'

/-- Whether the character closes a list or an object. -/
def closes (c : Char) : Bool := c == ']' || c == '}'

/-- Where a scan stands: outside of quotes, between them, or behind a backslash there. -/
inductive Quoting where
  | outside
  | inside
  | escaped
  deriving DecidableEq

/-- A scan: the tokens so far, the atom that is being read, and how many lists and objects are open in that. -/
structure Scan where
  tokens : List Token
  atom : List Char
  depth : Nat
  quoting : Quoting

namespace Scan

/-- A scan between two tokens. -/
def start (ts : List Token) : Scan := ⟨ts, [], 0, .outside⟩

/-- Adds characters to the atom. -/
def push (s : Scan) (cs : List Char) : Scan := { s with atom := s.atom ++ cs }

/-- Ends the atom, if there is one. -/
def cut (s : Scan) : Scan :=
  if s.atom.isEmpty then s else { s with tokens := s.tokens ++ [.atom (String.ofList s.atom)], atom := [] }

/-- **Reads a character.** -/
def step (s : Scan) (c : Char) : Scan :=
  match s.quoting with
  | .escaped => { s.push [c] with quoting := .inside }
  | .inside => { s.push [c] with quoting := if c = '"' then .outside else if c = '\\' then .escaped else .inside }
  | .outside =>
    if c = '"' then { s.push [c] with quoting := .inside }
    else if opens c then { s.push [c] with depth := s.depth + 1 }
    else if closes c then { s.push [c] with depth := s.depth - 1 }
    else if 0 < s.depth then s.push [c]
    else if Text.isBlank c then s.cut
    else match mark? c with
      | some t => { s.cut with tokens := s.cut.tokens ++ [t] }
      | none => s.push [c]

/-- Whether the scan stands in no literal. -/
def IsClosed (s : Scan) : Prop := s.depth = 0 ∧ s.quoting = .outside

instance (s : Scan) : Decidable s.IsClosed := inferInstanceAs (Decidable (_ ∧ _))

/-- The scan with other tokens before its own. -/
def behind (s : Scan) (ts : List Token) : Scan := { s with tokens := ts ++ s.tokens }

end Scan

/-- **The tokens of a text**, none if a literal in it does not end. -/
def scan? (text : String) : Option (List Token) :=
  let s := text.toList.foldl Scan.step (.start [])
  if s.IsClosed then some s.cut.tokens else none

variable {s : Scan} {c : Char} {text : String} {ts us : List Token}

/-! ## Texts in a row -/

namespace Scan

theorem cut_behind (s : Scan) (ts : List Token) : (s.behind ts).cut = s.cut.behind ts := by
  unfold cut behind
  by_cases h : s.atom.isEmpty = true
  · rw [if_pos h, if_pos h]
  · rw [if_neg h, if_neg h, List.append_assoc]

theorem step_behind (s : Scan) (ts : List Token) (c : Char) : (s.behind ts).step c = (s.step c).behind ts := by
  have hq : (s.behind ts).quoting = s.quoting := rfl
  have hd : (s.behind ts).depth = s.depth := rfl
  have hpush : (s.behind ts).push [c] = (s.push [c]).behind ts := rfl
  unfold step
  rw [hq, hd, hpush, cut_behind]
  cases s.quoting with
  | escaped => rfl
  | inside => rfl
  | outside =>
    dsimp only
    split
    · rfl
    split
    · rfl
    split
    · rfl
    split
    · rfl
    split
    · rfl
    cases mark? c with
    | none => rfl
    | some t => simp [behind]

theorem foldl_behind (s : Scan) (ts : List Token) (cs : List Char) :
    cs.foldl step (s.behind ts) = (cs.foldl step s).behind ts :=
  List.foldl_hom (behind · ts) fun s c => step_behind s ts c

theorem step_blank (h : s.IsClosed) : s.step ' ' = .start s.cut.tokens := by
  obtain ⟨ts, atom, depth, quoting⟩ := s
  obtain ⟨rfl, rfl⟩ : depth = 0 ∧ quoting = .outside := h
  cases atom with
  | nil => rfl
  | cons a as => rfl

theorem step_greater (h : s.IsClosed) : s.step '>' = .start (s.cut.tokens ++ [.greater]) := by
  obtain ⟨ts, atom, depth, quoting⟩ := s
  obtain ⟨rfl, rfl⟩ : depth = 0 ∧ quoting = .outside := h
  cases atom with
  | nil => rfl
  | cons a as => rfl

end Scan

open Scan (start step)

theorem scan?_eq_some : scan? text = some ts ↔
    (text.toList.foldl step (start [])).IsClosed ∧ (text.toList.foldl step (start [])).cut.tokens = ts := by
  unfold scan?
  simp

/-- A text that has tokens adds them to any that were read before it. -/
theorem exists_scan (h : scan? text = some ts) (before : List Token) :
    ∃ s, text.toList.foldl step (start before) = s ∧ s.IsClosed ∧ s.cut.tokens = before ++ ts := by
  obtain ⟨hclosed, htokens⟩ := scan?_eq_some.1 h
  have hbefore : start before = (start []).behind before := by simp [start, Scan.behind]
  refine ⟨_, rfl, ?_, ?_⟩
  · rw [hbefore, Scan.foldl_behind]
    exact hclosed
  · rw [hbefore, Scan.foldl_behind, Scan.cut_behind, ← htokens]
    rfl

/-- **Texts with an operator between them** have the operator between their tokens. -/
theorem scan?_operator {a b : String} {t : Token} (hstep : ∀ before, (start before).step c = start (before ++ [t]))
    (ha : scan? a = some ts) (hb : scan? b = some us) :
    scan? (a ++ String.ofList [' ', c, ' '] ++ b) = some (ts ++ t :: us) := by
  obtain ⟨s, hs, hclosed, htokens⟩ := exists_scan ha []
  obtain ⟨u, hu, huclosed, hutokens⟩ := exists_scan hb (ts ++ [t])
  have hrun : (a ++ String.ofList [' ', c, ' '] ++ b).toList.foldl step (start []) = u := by
    rw [String.toList_append, String.toList_append, List.foldl_append, List.foldl_append, hs, String.toList_ofList,
      ← hu]
    simp only [List.foldl_cons, List.foldl_nil]
    rw [Scan.step_blank hclosed, htokens, hstep, Scan.step_blank ⟨rfl, rfl⟩]
    rfl
  refine scan?_eq_some.2 ⟨hrun ▸ huclosed, ?_⟩
  rw [hrun, hutokens, List.append_assoc]
  rfl

/-- **A text as the argument of `Array`** has its tokens between the brackets. -/
theorem scan?_array (h : scan? text = some ts) :
    scan? ("Array<" ++ text ++ ">") = some (.atom "Array" :: .less :: ts ++ [.greater]) := by
  obtain ⟨s, hs, hclosed, htokens⟩ := exists_scan h [.atom "Array", .less]
  have hhead : "Array<".toList.foldl step (start []) = start [.atom "Array", .less] := rfl
  have hrun : ("Array<" ++ text ++ ">").toList.foldl step (start []) = s.step '>' := by
    rw [String.toList_append, String.toList_append, List.foldl_append, List.foldl_append, hhead, hs]
    rfl
  rw [Scan.step_greater hclosed, htokens] at hrun
  refine scan?_eq_some.2 ⟨hrun ▸ ⟨rfl, rfl⟩, ?_⟩
  rw [hrun]
  rfl

/-! ## Literals -/

namespace Scan

@[simp] theorem push_nil (s : Scan) : s.push [] = s := by simp [push]

@[simp] theorem push_push (s : Scan) (cs ds : List Char) : (s.push cs).push ds = s.push (cs ++ ds) := by simp [push]

end Scan

/-- **Whether characters are kept together**: where at least so many lists and objects are open, they are read as a part of
one atom. -/
def Kept (least : Nat) (cs : List Char) : Prop :=
  ∀ s : Scan, s.quoting = .outside → least ≤ s.depth → cs.foldl step s = s.push cs

variable {least : Nat} {cs ds : List Char}

theorem Kept.inner (h : Kept 0 cs) : Kept least cs :=
  fun s hs _ => h s hs (Nat.zero_le _)

theorem kept_nil (least : Nat) : Kept least [] :=
  fun s _ _ => s.push_nil.symm

theorem Kept.append (hc : Kept least cs) (hd : Kept least ds) : Kept least (cs ++ ds) := by
  intro s hs hdepth
  rw [List.foldl_append, hc s hs hdepth, hd (s.push cs) hs hdepth, Scan.push_push]

/-- Whether the character belongs to an atom outside of quotes and brackets. -/
def isAtomChar (c : Char) : Bool :=
  !(c == '"' || opens c || closes c || Text.isBlank c || (mark? c).isSome)

theorem step_of_isAtomChar (h : isAtomChar c = true) (hs : s.quoting = .outside) : s.step c = s.push [c] := by
  unfold isAtomChar at h
  simp only [Bool.not_eq_true', Bool.or_eq_false_iff, beq_eq_false_iff_ne, Option.isSome_eq_false_iff,
    Option.isNone_iff_eq_none] at h
  obtain ⟨⟨⟨⟨hquote, hopens⟩, hcloses⟩, hblank⟩, hmark⟩ := h
  unfold Scan.step
  simp [hs, hquote, hopens, hcloses, hblank, hmark]

/-- Characters are kept together if none of them is a quote, a bracket, a blank or a mark. -/
theorem kept_of_isAtomChar : ∀ {cs : List Char}, (∀ c ∈ cs, isAtomChar c = true) → Kept 0 cs
  | [], _ => kept_nil 0
  | c :: cs, h => by
    have hrest : Kept 0 cs := kept_of_isAtomChar fun d hd => h d (List.mem_cons_of_mem _ hd)
    intro s hs hdepth
    rw [List.foldl_cons, step_of_isAtomChar (h c List.mem_cons_self) hs, hrest (s.push [c]) hs hdepth, Scan.push_push]
    rfl

/-- In a list or an object, characters are kept together if none of them is a quote or a bracket. -/
theorem kept_inside : ∀ {cs : List Char}, (∀ c ∈ cs, c ≠ '"' ∧ opens c = false ∧ closes c = false) → Kept 1 cs
  | [], _ => kept_nil 1
  | c :: cs, h => by
    have hrest : Kept 1 cs := kept_inside fun d hd => h d (List.mem_cons_of_mem _ hd)
    obtain ⟨hquote, hopens, hcloses⟩ := h c List.mem_cons_self
    intro s hs hdepth
    have hpos : 0 < s.depth := hdepth
    have hstep : s.step c = s.push [c] := by
      unfold Scan.step
      simp [hs, hquote, hopens, hcloses, hpos]
    rw [List.foldl_cons, hstep, hrest (s.push [c]) hs hdepth, Scan.push_push]
    rfl

/-- Whether a text is an atom: it is kept together wherever it stands, and is not empty. -/
structure IsAtom (text : String) : Prop where
  kept : Kept 0 text.toList
  ne_empty : text ≠ ""

/-- **The only token of an atom is itself.** -/
theorem IsAtom.scan? (h : IsAtom text) : scan? text = some [.atom text] := by
  have hrun := h.kept (start []) rfl (Nat.zero_le _)
  have hchars : text.toList.isEmpty = false := by
    rw [List.isEmpty_eq_false_iff]
    exact fun hnil => h.ne_empty (String.toList_eq_nil_iff.1 hnil)
  refine scan?_eq_some.2 ⟨hrun ▸ ⟨rfl, rfl⟩, ?_⟩
  rw [hrun]
  simp [Scan.cut, Scan.push, start, hchars, String.ofList_toList]

/-- **What is kept together in a list or an object** is kept together with the brackets, wherever it stands. -/
theorem Kept.bracketed {o e : Char} (ho : opens o = true) (he : closes e = true) (h : Kept 1 cs) :
    Kept 0 (o :: cs ++ [e]) := by
  intro s hs _
  have hopen : s.step o = ⟨s.tokens, s.atom ++ [o], s.depth + 1, s.quoting⟩ := by
    have hquote : o ≠ '"' := by
      rintro rfl
      exact absurd ho (by decide)
    unfold Scan.step
    simp [hs, hquote, ho, Scan.push]
  have hclose : ∀ u : Scan, u.quoting = .outside → u.step e = ⟨u.tokens, u.atom ++ [e], u.depth - 1, u.quoting⟩ := by
    have hquote : e ≠ '"' := by
      rintro rfl
      exact absurd he (by decide)
    have hopens : opens e = false := by
      unfold closes at he
      rcases Bool.or_eq_true_iff.1 he with he | he <;> rw [beq_iff_eq.1 he] <;> decide
    intro u hu
    unfold Scan.step
    simp [hu, hquote, hopens, he, Scan.push]
  -- behind the opening bracket one list or object is open, whatever was before
  have hinner : cs.foldl step (s.step o) = (s.step o).push cs :=
    h (s.step o) (by rw [hopen]; exact hs) (by rw [hopen]; exact Nat.succ_pos _)
  rw [List.cons_append, List.foldl_cons, List.foldl_append, hinner, hopen, List.foldl_cons, List.foldl_nil,
    hclose _ (by exact hs)]
  simp [Scan.push]

/-- Between quotes, characters are read up to where the quotes may end. -/
def Quoted (cs : List Char) : Prop :=
  ∀ s : Scan, s.quoting = .inside → cs.foldl step s = s.push cs

theorem Quoted.append (hc : Quoted cs) (hd : Quoted ds) : Quoted (cs ++ ds) := by
  intro s hs
  rw [List.foldl_append, hc s hs, hd (s.push cs) hs, Scan.push_push]

theorem quoted_flatMap {escape : Char → List Char} (h : ∀ c, Quoted (escape c)) : ∀ cs : List Char,
    Quoted (cs.flatMap escape)
  | [] => fun s _ => s.push_nil.symm
  | c :: cs => by
    rw [List.flatMap_cons]
    exact (h c).append (quoted_flatMap h cs)

theorem quoted_singleton (hquote : c ≠ '"') (hback : c ≠ '\\') : Quoted [c] := by
  intro s hs
  simp [Scan.step, hs, hquote, hback, Scan.push]

theorem quoted_escape (c : Char) : Quoted ['\\', c] := by
  intro s hs
  simp [Scan.step, hs, Scan.push]

theorem quoted_of_ne : ∀ {cs : List Char}, (∀ c ∈ cs, c ≠ '"' ∧ c ≠ '\\') → Quoted cs
  | [], _ => fun s _ => s.push_nil.symm
  | c :: _, h => (quoted_singleton (h c List.mem_cons_self).1 (h c List.mem_cons_self).2).append
      (quoted_of_ne fun d hd => h d (List.mem_cons_of_mem _ hd))

/-- **A quoted text is kept together.** -/
theorem Quoted.kept (h : Quoted cs) : Kept 0 ('"' :: cs ++ ['"']) := by
  intro s hs _
  have hopen : s.step '"' = { s.push ['"'] with quoting := .inside } := by simp [Scan.step, hs]
  rw [List.cons_append, List.foldl_cons, hopen, List.foldl_append, h { s.push ['"'] with quoting := .inside } rfl]
  simp [Scan.step, Scan.push, hs]

end Grammar
end TypedClient
