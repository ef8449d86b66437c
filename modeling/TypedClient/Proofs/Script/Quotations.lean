import Mathlib.Data.List.Forall2
import TypedClient.Proofs.Script.Literals
/-!
# Quotations — quoted texts by the rules of JSON

Between the quotes of a literal, JSON spells a text character by character: most characters stand for themselves, and any may
be spelled by an escape (`Spells`, `Says`).  The reader of literals reads exactly what is spelled so
(`readLiteral?_eq_some_iff`), and what is spelled so neither ends a literal early nor breaks it (`Says.unbroken`).  Both forms
in which texts are quoted spell the text, so that they read as the text.  For the first form the printed language agrees
(`quote_roundTrips`).
-/
namespace TypedClient
namespace Script

variable {α : Type} {a b cs ds es inside piece rest text : List Char} {c x : Char} {n high low : Nat}

/-! ## What may stand between quotes -/

/-- Whether the character may stand for itself: it is no quote, no backslash and no control character below U+0020. -/
def isPlain (c : Char) : Bool :=
  0x20 ≤ c.toNat && c != '"' && c != '\\'

theorem isPlain_iff : isPlain c = true ↔ 0x20 ≤ c.toNat ∧ c ≠ '"' ∧ c ≠ '\\' := by
  simp [isPlain, and_assoc]

/-- Whether the characters end with a backslash that escapes what follows them. -/
def escapesNext (cs : List Char) : Bool :=
  cs.foldl (fun escaped c => !escaped && c == '\\') false

/-- **Whether a literal stays whole with these characters between its quotes**: every quote among them is escaped, the quote
behind them is not, and there is no control character, so that there is no line feed and no carriage return. -/
structure Unbroken (inside : List Char) : Prop where
  quotes : ∀ before behind, inside = before ++ '"' :: behind → escapesNext before = true
  closed : escapesNext inside = false
  controls : ∀ c ∈ inside, 0x20 ≤ c.toNat

theorem escapesNext_append (h : escapesNext a = false) : escapesNext (a ++ b) = escapesNext b := by
  unfold escapesNext at h ⊢
  rw [List.foldl_append, h]

theorem unbroken_nil : Unbroken [] where
  quotes := by simp
  closed := rfl
  controls := by simp

theorem Unbroken.append (ha : Unbroken a) (hb : Unbroken b) : Unbroken (a ++ b) where
  quotes := by
    intro before behind h
    rcases List.append_eq_append_iff.1 h with ⟨more, rfl, hmore⟩ | ⟨more, hmore, h⟩
    · rw [escapesNext_append ha.closed]
      exact hb.quotes more behind hmore
    · cases more with
      | nil =>
        -- the quote is the first character of the second part
        rw [List.append_nil] at hmore
        rw [← hmore, ha.closed]
        exact hb.quotes [] behind h.symm
      | cons d more =>
        obtain ⟨rfl, -⟩ := List.cons.inj h
        exact ha.quotes before more hmore
  closed := (escapesNext_append ha.closed).trans hb.closed
  controls := by
    intro c hc
    exact (List.mem_append.1 hc).elim (ha.controls c) (hb.controls c)

/-- An escape covers the quote or the backslash in it. -/
theorem unbroken_escape (hx : 0x20 ≤ x.toNat) : Unbroken ['\\', x] where
  quotes := by
    intro before behind h
    match before with
    | [] => simp at h
    | [d] =>
      obtain ⟨rfl, -⟩ := List.cons.inj h
      rfl
    | _ :: _ :: _ => simp at h
  closed := rfl
  controls := by simp [hx]

theorem unbroken_of_isPlain (h : ∀ c ∈ cs, isPlain c = true) : Unbroken cs := by
  induction cs with
  | nil => exact unbroken_nil
  | cons c cs ih =>
    obtain ⟨hc, hquote, hback⟩ := isPlain_iff.1 (h c (by simp))
    have hsingle : Unbroken [c] := by
      refine ⟨fun before behind heq => ?_, by simp [escapesNext, hback], by simp [hc]⟩
      have hmem : '"' ∈ [c] := by simp [heq]
      exact absurd (List.mem_singleton.1 hmem).symm hquote
    exact hsingle.append (ih fun d hd => h d (by simp [hd]))

namespace Json

/-! ## Spellings -/

/-- The character that a letter or a sign spells behind a backslash. -/
def letter? : Char → Option Char
  | '"' => some '"'
  | '\\' => some '\\'
  | '/' => some '/'
  | 'b' => some '\x08'
  | 'f' => some '\x0c'
  | 'n' => some '\n'
  | 'r' => some '\r'
  | 't' => some '\t'
  | _ => none

/-- Whether four hexadecimal digits are the number of a 16-bit unit. -/
def IsUnit (ds : List Char) (n : Nat) : Prop :=
  ds.length = 4 ∧ hexNumber? ds = some n

/-- **How a character may be spelled**: by itself, by a letter, by its number, or by the numbers of two units that are its
halves. -/
inductive Spells : List Char → Char → Prop
  | plain {c : Char} (hplain : isPlain c = true) : Spells [c] c
  | letter {x c : Char} (hletter : letter? x = some c) : Spells ['\\', x] c
  | number {ds : List Char} {c : Char} (hunit : IsUnit ds c.toNat) : Spells ('\\' :: 'u' :: ds) c
  | halves {ds es : List Char} {high low : Nat} {c : Char} (hhigh : IsUnit ds (0xD800 + high))
      (hlow : IsUnit es (0xDC00 + low)) (hlt : low < 0x400) (hc : c.toNat = 0x10000 + high * 0x400 + low) :
    Spells ('\\' :: 'u' :: (ds ++ '\\' :: 'u' :: es)) c

/-- **What the characters between two quotes say.** -/
inductive Says : List Char → List Char → Prop
  | nil : Says [] []
  | cons {piece inside text : List Char} {c : Char} (hpiece : Spells piece c) (hinside : Says inside text) :
    Says (piece ++ inside) (c :: text)

/-- Whether the spelling has no escape that it does not need. -/
def Sparing (piece : List Char) (c : Char) : Prop :=
  Spells piece c ∧ (isPlain c = true → piece = [c])

theorem Spells.ne_nil (h : Spells piece c) : piece ≠ [] := by
  cases h <;> simp

/-- Whatever spells each character of a text says the text. -/
theorem says_flatMap {escape : Char → List Char} {text : List Char} (h : ∀ c ∈ text, Spells (escape c) c) :
    Says (text.flatMap escape) text := by
  induction text with
  | nil => exact .nil
  | cons c text ih => exact .cons (h c List.mem_cons_self) (ih fun d hd => h d (List.mem_cons_of_mem _ hd))

/-! ## Spellings are unbroken -/

/-- A character is no control character if something is made of it that is made of none of those. -/
theorem le_toNat_of_isSome {f : Char → Option α} (hnone : ∀ k : Fin 0x20, f (Char.ofNat k) = none) (h : (f c).isSome) :
    0x20 ≤ c.toNat := by
  by_contra hlt
  have hc := hnone ⟨c.toNat, by omega⟩
  rw [Char.ofNat_toNat] at hc
  simp [hc] at h

theorem isPlain_of_hexValue? (h : (hexValue? c).isSome) : isPlain c = true := by
  refine isPlain_iff.2 ⟨le_toNat_of_isSome (by decide) h, ?_, ?_⟩
  · rintro rfl
    exact absurd h (by decide)
  · rintro rfl
    exact absurd h (by decide)

theorem isSome_hexValue?_of_mem {m : Nat} (h : ds.foldlM (fun n c => (hexValue? c).map (16 * n + ·)) n = some m) :
    ∀ d ∈ ds, (hexValue? d).isSome := by
  induction ds generalizing n with
  | nil => simp
  | cons d ds ih =>
    rw [List.foldlM_cons] at h
    obtain ⟨next, hd, hrest⟩ := Option.bind_eq_some_iff.1 h
    obtain ⟨value, hvalue, -⟩ := Option.map_eq_some_iff.1 hd
    intro e he
    rcases List.mem_cons.1 he with rfl | he
    · rw [hvalue, Option.isSome_some]
    · exact ih hrest e he

theorem IsUnit.unbroken (h : IsUnit ds n) : Unbroken ds :=
  unbroken_of_isPlain fun d hd => isPlain_of_hexValue? (isSome_hexValue?_of_mem h.2 d hd)

theorem Spells.unbroken (h : Spells piece c) : Unbroken piece := by
  cases h with
  | plain hplain =>
    refine unbroken_of_isPlain fun d hd => ?_
    rwa [List.mem_singleton.1 hd]
  | letter hletter => exact unbroken_escape (le_toNat_of_isSome (f := letter?) (by decide) (by simp [hletter]))
  | number hunit => exact (unbroken_escape (x := 'u') (by decide)).append hunit.unbroken
  | halves hhigh hlow =>
    have hu : Unbroken ['\\', 'u'] := unbroken_escape (by decide)
    exact hu.append (hhigh.unbroken.append (hu.append hlow.unbroken))

theorem Says.unbroken (h : Says inside text) : Unbroken inside := by
  induction h with
  | nil => exact unbroken_nil
  | cons hpiece _ ih => exact hpiece.unbroken.append ih

/-! ## Reading literals -/

/-- Reads the number of a unit. -/
def readUnit? (cs : List Char) : Option (Nat × List Char) :=
  if cs.length < 4 then none else (hexNumber? (cs.take 4)).map fun n => (n, cs.drop 4)

/-- Reads the second half of a character. -/
def readLow? (high : Nat) : List Char → Option (Char × List Char)
  | '\\' :: 'u' :: cs =>
    (readUnit? cs).bind fun (n, rest) =>
      if 0xDC00 ≤ n ∧ n < 0xE000 then
        (charOf? (0x10000 + high * 0x400 + (n - 0xDC00))).map fun c => (c, rest)
      else none
  | _ => none

/-- Reads a character by its number or by the numbers of its halves. -/
def readNumber? (cs : List Char) : Option (Char × List Char) :=
  (readUnit? cs).bind fun (n, rest) =>
    if 0xD800 ≤ n ∧ n < 0xDC00 then readLow? (n - 0xD800) rest else (charOf? n).map fun c => (c, rest)

/-- **Reads a character**, however it is spelled. -/
def readChar? : List Char → Option (Char × List Char)
  | '\\' :: 'u' :: cs => readNumber? cs
  | '\\' :: x :: cs => (letter? x).map fun c => (c, cs)
  | c :: cs => if isPlain c then some (c, cs) else none
  | [] => none

theorem readUnit?_eq_some_iff : readUnit? cs = some (n, rest) ↔ ∃ ds, IsUnit ds n ∧ cs = ds ++ rest := by
  unfold readUnit?
  constructor
  · intro h
    split at h
    · cases h
    rename_i hlength
    obtain ⟨m, hnumber, heq⟩ := Option.map_eq_some_iff.1 h
    cases heq
    exact ⟨cs.take 4, ⟨by simp; omega, hnumber⟩, (List.take_append_drop 4 cs).symm⟩
  · rintro ⟨ds, ⟨hlength, hnumber⟩, rfl⟩
    rw [if_neg (by simp; omega), List.take_left' hlength, List.drop_left' hlength, hnumber, Option.map_some]

theorem charOf?_eq_some_iff : charOf? n = some c ↔ c.toNat = n := by
  unfold charOf?
  constructor
  · intro h
    split at h
    · rename_i hvalid
      cases h
      rw [Char.ofNat, dif_pos hvalid]
      rfl
    · cases h
  · rintro rfl
    have hvalid : c.toNat.isValidChar := c.valid
    rw [if_pos hvalid, Char.ofNat_toNat]

theorem readLow?_eq_some_iff : readLow? high cs = some (c, rest) ↔ ∃ es low, IsUnit es (0xDC00 + low) ∧ low < 0x400 ∧
    c.toNat = 0x10000 + high * 0x400 + low ∧ cs = '\\' :: 'u' :: (es ++ rest) := by
  constructor
  · intro h
    unfold readLow? at h
    split at h
    · obtain ⟨⟨n, more⟩, hunit, hread⟩ := Option.bind_eq_some_iff.1 h
      obtain ⟨es, hes, rfl⟩ := readUnit?_eq_some_iff.1 hunit
      dsimp only at hread
      split at hread
      · rename_i hlow
        obtain ⟨d, hchar, heq⟩ := Option.map_eq_some_iff.1 hread
        cases heq
        refine ⟨es, n - 0xDC00, ?_, by omega, charOf?_eq_some_iff.1 hchar, rfl⟩
        rwa [Nat.add_sub_of_le hlow.1]
      · cases hread
    · cases h
  · rintro ⟨es, low, hes, hlt, hc, rfl⟩
    have hunit : readUnit? (es ++ rest) = some (0xDC00 + low, rest) := readUnit?_eq_some_iff.2 ⟨es, hes, rfl⟩
    have hlow : 0xDC00 ≤ 0xDC00 + low ∧ 0xDC00 + low < 0xE000 := by omega
    have hchar : charOf? (0x10000 + high * 0x400 + low) = some c := charOf?_eq_some_iff.2 hc
    rw [readLow?, hunit, Option.bind_some]
    dsimp only
    rw [if_pos hlow, Nat.add_sub_cancel_left, hchar, Option.map_some]

theorem isValidChar_toNat (c : Char) : c.toNat < 0xD800 ∨ 0xDFFF < c.toNat ∧ c.toNat < 0x110000 :=
  c.valid

theorem readNumber?_number (h : IsUnit ds c.toNat) : readNumber? (ds ++ rest) = some (c, rest) := by
  have hunit : readUnit? (ds ++ rest) = some (c.toNat, rest) := readUnit?_eq_some_iff.2 ⟨ds, h, rfl⟩
  have hwhole : ¬ (0xD800 ≤ c.toNat ∧ c.toNat < 0xDC00) := by
    have hvalid := isValidChar_toNat c
    omega
  have hchar : charOf? c.toNat = some c := charOf?_eq_some_iff.2 rfl
  rw [readNumber?, hunit, Option.bind_some]
  dsimp only
  rw [if_neg hwhole, hchar, Option.map_some]

theorem readNumber?_halves (hhigh : IsUnit ds (0xD800 + high)) (hlow : IsUnit es (0xDC00 + low)) (hlt : low < 0x400)
    (hc : c.toNat = 0x10000 + high * 0x400 + low) :
    readNumber? (ds ++ '\\' :: 'u' :: (es ++ rest)) = some (c, rest) := by
  have hunit : readUnit? (ds ++ '\\' :: 'u' :: (es ++ rest)) = some (0xD800 + high, '\\' :: 'u' :: (es ++ rest)) :=
    readUnit?_eq_some_iff.2 ⟨ds, hhigh, rfl⟩
  have hhalf : 0xD800 ≤ 0xD800 + high ∧ 0xD800 + high < 0xDC00 := by
    have hvalid := isValidChar_toNat c
    omega
  rw [readNumber?, hunit, Option.bind_some]
  dsimp only
  rw [if_pos hhalf, Nat.add_sub_cancel_left]
  exact readLow?_eq_some_iff.2 ⟨es, low, hlow, hlt, hc, rfl⟩

theorem exists_spells_of_readNumber? (h : readNumber? cs = some (c, rest)) :
    ∃ piece, Spells piece c ∧ '\\' :: 'u' :: cs = piece ++ rest := by
  obtain ⟨⟨n, more⟩, hunit, hread⟩ := Option.bind_eq_some_iff.1 h
  obtain ⟨ds, hds, rfl⟩ := readUnit?_eq_some_iff.1 hunit
  dsimp only at hread
  split at hread
  · rename_i hhalf
    obtain ⟨es, low, hes, hlt, hc, rfl⟩ := readLow?_eq_some_iff.1 hread
    have hhigh : IsUnit ds (0xD800 + (n - 0xD800)) := by rwa [Nat.add_sub_of_le hhalf.1]
    exact ⟨_, .halves hhigh hes hlt hc, by simp⟩
  · obtain ⟨d, hchar, heq⟩ := Option.map_eq_some_iff.1 hread
    cases heq
    exact ⟨_, .number (charOf?_eq_some_iff.1 hchar ▸ hds), by simp⟩

/-- **The reader of characters knows all spellings**, and nothing else. -/
theorem readChar?_eq_some_iff : readChar? cs = some (c, rest) ↔ ∃ piece, Spells piece c ∧ cs = piece ++ rest := by
  constructor
  · intro h
    unfold readChar? at h
    split at h
    · exact exists_spells_of_readNumber? h
    · obtain ⟨d, hletter, heq⟩ := Option.map_eq_some_iff.1 h
      cases heq
      exact ⟨_, .letter hletter, by simp⟩
    · split at h
      · rename_i hplain
        cases h
        exact ⟨_, .plain hplain, by simp⟩
      · cases h
    · cases h
  · rintro ⟨piece, hpiece, rfl⟩
    cases hpiece with
    | plain hplain =>
      have hback : c ≠ '\\' := (isPlain_iff.1 hplain).2.2
      simp [readChar?, hback, hplain]
    | @letter x _ hletter =>
      have hx : x ≠ 'u' := by
        rintro rfl
        exact absurd hletter (by simp [letter?])
      simp [readChar?, hletter]
    | number hunit => exact readNumber?_number hunit
    | @halves ds es _ _ _ hhigh hlow hlt hc =>
      rw [List.cons_append, List.cons_append, List.append_assoc]
      exact readNumber?_halves hhigh hlow hlt hc

/-- Reads what a literal says, from behind its first quote to its last. -/
def readInside? : List Char → Option (List Char × List Char)
  | [] => none
  | c :: rest =>
    if c = '"' then some ([], rest)
    else
      match _h : readChar? (c :: rest) with
      | some (d, more) => (readInside? more).map fun said => (d :: said.1, said.2)
      | none => none
termination_by cs => cs.length
decreasing_by
  obtain ⟨piece, hpiece, heq⟩ := readChar?_eq_some_iff.1 _h
  have hpos := List.length_pos_iff.2 hpiece.ne_nil
  rw [heq, List.length_append]
  omega

/-- **Reads a literal**: what it says, and what follows it. -/
def readLiteral? : List Char → Option (List Char × List Char)
  | '"' :: rest => readInside? rest
  | _ => none

theorem readInside?_append (h : Spells piece c) :
    readInside? (piece ++ cs) = (readInside? cs).map fun said => (c :: said.1, said.2) := by
  have hread : readChar? (piece ++ cs) = some (c, cs) := readChar?_eq_some_iff.2 ⟨piece, h, rfl⟩
  cases piece with
  | nil => exact absurd rfl h.ne_nil
  | cons d piece =>
    have hquote : d ≠ '"' := by
      rintro rfl
      simp [readChar?, isPlain] at hread
    rw [List.cons_append] at hread ⊢
    rw [readInside?, if_neg hquote]
    split
    · rename_i heq
      cases heq.symm.trans hread
      rfl
    · rename_i heq
      cases heq.symm.trans hread

theorem readInside?_eq_some_iff :
    readInside? cs = some (text, rest) ↔ ∃ inside, Says inside text ∧ cs = inside ++ '"' :: rest := by
  constructor
  · intro h
    fun_induction readInside? cs generalizing text rest with
    | case1 => cases h
    | case2 =>
      cases h
      exact ⟨[], .nil, rfl⟩
    | case3 _ _ _ d more hread ih =>
      obtain ⟨⟨text, rest⟩, hmore, heq⟩ := Option.map_eq_some_iff.1 h
      cases heq
      obtain ⟨piece, hpiece, hcs⟩ := readChar?_eq_some_iff.1 hread
      obtain ⟨inside, hinside, rfl⟩ := ih hmore
      exact ⟨piece ++ inside, .cons hpiece hinside, by simp [hcs]⟩
    | case4 => cases h
  · rintro ⟨inside, hinside, rfl⟩
    induction hinside with
    | nil => simp [readInside?]
    | cons hpiece _ ih => rw [List.append_assoc, readInside?_append hpiece, ih, Option.map_some]

/-- **The reader reads literals**: what stands between two quotes and says a text, and nothing else. -/
theorem readLiteral?_eq_some_iff :
    readLiteral? cs = some (text, rest) ↔ ∃ inside, Says inside text ∧ cs = '"' :: (inside ++ '"' :: rest) := by
  constructor
  · intro h
    unfold readLiteral? at h
    split at h
    · obtain ⟨inside, hinside, rfl⟩ := readInside?_eq_some_iff.1 h
      exact ⟨inside, hinside, rfl⟩
    · cases h
  · rintro ⟨inside, hinside, rfl⟩
    exact readInside?_eq_some_iff.2 ⟨inside, hinside, rfl⟩

example : readLiteral? "\"\\u0041\\/\\ud83d\\ude00\";".toList = some ("A/😀".toList, [';']) := by decide +kernel

/-! ## What is quoted -/

theorem isUnit_hexDigits (h : n < 0x10000) : IsUnit (Text.hexDigits 4 n) n := by
  refine ⟨length_hexDigits 4 n, ?_⟩
  have hfits : n < 16 ^ 4 := h
  rw [hexNumber?_hexDigits, Nat.mod_eq_of_lt hfits]

theorem sparing_escapeQuoted (c : Char) : Sparing (Text.escapeQuoted c) c := by
  rcases Text.escapeQuoted_cases c with ⟨h, hplain⟩ | ⟨x, h, hx⟩ | ⟨h, hcontrol⟩
  · rw [h]
    exact ⟨.plain (isPlain_iff.2 hplain), fun _ => rfl⟩
  · have hletter : ∀ p ∈ Text.shortEscapes, letter? p.2 = some p.1 ∧ ¬ isPlain p.1 = true := by decide
    obtain ⟨hspells, hnot⟩ := hletter _ hx
    rw [h]
    exact ⟨.letter hspells, fun hplain => absurd hplain hnot⟩
  · have hnot : ¬ isPlain c = true := fun hplain => absurd (isPlain_iff.1 hplain).1 (by omega)
    rw [h]
    exact ⟨.number (isUnit_hexDigits (by omega)), fun hplain => absurd hplain hnot⟩

theorem spells_escapeUnits {c : Char} (hwhole : Text.halfCode? c = none) : Spells (Text.escapeUnits c) c := by
  have hvalid := isValidChar_toNat c
  unfold Text.escapeUnits
  rw [hwhole]
  dsimp only [Option.getD_none]
  split
  · rename_i h
    exact .number (isUnit_hexDigits h)
  · refine .halves (isUnit_hexDigits ?_) (isUnit_hexDigits ?_) (Nat.mod_lt _ (by decide)) ?_
    all_goals omega

theorem spells_escapeAscii {c : Char} (hwhole : Text.halfCode? c = none) : Spells (Text.escapeAscii c) c := by
  unfold Text.escapeAscii
  split
  · exact (sparing_escapeQuoted c).1
  · exact spells_escapeUnits hwhole

theorem says_quote (text : String) : Says (text.toList.flatMap Text.escapeQuoted) text.toList :=
  says_flatMap fun c _ => (sparing_escapeQuoted c).1

theorem readLiteral?_quote (text : String) (rest : List Char) :
    readLiteral? ((Text.quote text).toList ++ rest) = some (text.toList, rest) := by
  refine readLiteral?_eq_some_iff.2 ⟨_, says_quote text, ?_⟩
  simp [Text.quote]

/-- **The form in printable ASCII reads as the text**, too, with the characters beyond U+FFFF from their halves, if no half
stands by itself. -/
theorem readLiteral?_quoteAscii {text : String} (hwhole : ∀ c ∈ text.toList, Text.halfCode? c = none) (rest : List Char) :
    readLiteral? ((Text.quoteAscii text).toList ++ rest) = some (text.toList, rest) := by
  refine readLiteral?_eq_some_iff.2 ⟨_, says_flatMap fun c hc => spells_escapeAscii (hwhole c hc), ?_⟩
  simp [Text.quoteAscii]

end Json

/-- **A quoted text is one whole literal that says the text.**  Each of its characters is spelled in turn, by an escape only if
it may not stand for itself, and nothing between the quotes ends or breaks the literal.  By the rules of JSON and by those of
the printed language it reads as the text, and ends where it ends, whatever follows.  So different texts have different
literals. -/
theorem quote_roundTrips (text : String) :
    (∃ pieces, List.Forall₂ Json.Sparing pieces text.toList ∧
      (Text.quote text).toList = '"' :: (pieces.flatten ++ ['"']) ∧ Unbroken pieces.flatten) ∧
    (∀ rest, Json.readLiteral? ((Text.quote text).toList ++ rest) = some (text.toList, rest)) ∧
    (∀ rest, readString? ((Text.quote text).toList ++ rest) = some (text.toList, rest)) ∧
    ∀ other, Text.quote text = Text.quote other ↔ text = other := by
  refine ⟨⟨text.toList.map Text.escapeQuoted, ?_, ?_, ?_⟩, Json.readLiteral?_quote text, readString?_quote text,
    fun other => ⟨fun h => ?_, congrArg Text.quote⟩⟩
  · rw [List.forall₂_map_left_iff, List.forall₂_same]
    exact fun c _ => Json.sparing_escapeQuoted c
  · rw [← List.flatMap_def, Text.quote, String.toList_ofList]
  · rw [← List.flatMap_def]
    exact (Json.says_quote text).unbroken
  · -- one literal does not read as two texts
    have hread := readString?_quote text []
    rw [h, readString?_quote other [], Option.some.injEq, Prod.mk.injEq, String.toList_inj] at hread
    exact hread.1.symm

example : Text.quote "\"a\\\"\n\x01é" = "\"\\\"a\\\\\\\"\\n\\u0001é\"" := by decide +kernel

end Script
end TypedClient
