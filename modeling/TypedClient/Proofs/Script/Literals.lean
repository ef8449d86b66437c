import Mathlib.Algebra.Group.Nat.Defs
import Mathlib.Data.List.Basic
import TypedClient.Naming.Identifier
import TypedClient.Text.Quoted
/-!
# Literals — names, numbers and strings as the printed language reads them

Names, whole numbers and double-quoted strings are read from the front of a text, with all escapes that strings and templates
may hold.  A quoted text reads as the text that was quoted, and the literal ends where the quote ends it (`readString?_quote`).
-/
namespace TypedClient
namespace Script

/-! ## Names -/

/-- Whether the character may start a name: letters beyond ASCII may. -/
def isNameStart (c : Char) : Bool :=
  Naming.isIdentifierStart c || (0x80 ≤ c.toNat && !Text.isBlank c)

/-- Whether the character may stand in a name. -/
def isNameChar (c : Char) : Bool :=
  Naming.isIdentifierChar c || (0x80 ≤ c.toNat && !Text.isBlank c)

theorem isNameChar_of_isDigit {c : Char} (h : c.isDigit = true) : isNameChar c = true := by
  simp [isNameChar, Naming.isIdentifierChar, Char.isAlphanum, h]

theorem isNameChar_of_isNameStart {c : Char} (h : isNameStart c = true) : isNameChar c = true := by
  simp only [isNameStart, Naming.isIdentifierStart, isNameChar, Naming.isIdentifierChar, Char.isAlphanum, Bool.or_eq_true] at h ⊢
  tauto

theorem isDigit_eq_false_of_isNameStart {c : Char} (h : isNameStart c = true) : c.isDigit = false := by
  rw [Bool.eq_false_iff]
  intro hdigit
  have hrange : 48 ≤ c.toNat ∧ c.toNat ≤ 57 := by
    rw [Char.isDigit, Bool.and_eq_true, decide_eq_true_eq, decide_eq_true_eq] at hdigit
    exact hdigit
  have hall : ∀ k : Fin 10, isNameStart (Char.ofNat (48 + k)) = false := by decide
  have hc : c = Char.ofNat (48 + (c.toNat - 48)) := by
    rw [Nat.add_sub_cancel' hrange.1, Char.ofNat_toNat]
  have hk : c.toNat - 48 < 10 := by omega
  rw [hc, hall ⟨_, hk⟩] at h
  cases h

/-- Whether the characters form a name. -/
def isName : List Char → Bool
  | [] => false
  | c :: rest => isNameStart c && rest.all isNameChar

theorem isName_of_isIdentifier {cs : List Char} (h : Naming.isIdentifier cs = true) : isName cs = true := by
  cases cs with
  | nil => cases h
  | cons c rest =>
    rw [Naming.isIdentifier, Bool.and_eq_true, List.all_eq_true] at h
    rw [isName, isNameStart, h.1, Bool.true_or, Bool.true_and, List.all_eq_true]
    intro d hd
    rw [isNameChar, h.2 d hd, Bool.true_or]

/-- Reads a name, as long as it goes on. -/
def readName? (cs : List Char) : Option (List Char × List Char) :=
  match cs with
  | [] => none
  | c :: rest => if isNameStart c then some (c :: rest.takeWhile isNameChar, rest.dropWhile isNameChar) else none

/-- **A name is read to its end**, if what follows does not go on with it. -/
theorem readName?_append {name rest : List Char} (h : isName name = true) (hrest : ∀ c ∈ rest.head?, isNameChar c = false) :
    readName? (name ++ rest) = some (name, rest) := by
  cases name with
  | nil => cases h
  | cons c cs =>
    obtain ⟨hstart, hall⟩ := Bool.and_eq_true_iff.1 h
    have hall : ∀ d ∈ cs, isNameChar d = true := List.all_eq_true.1 hall
    have hstop : rest.takeWhile isNameChar = [] ∧ rest.dropWhile isNameChar = rest := by
      cases rest with
      | nil => exact ⟨rfl, rfl⟩
      | cons d rest =>
        have hd := hrest d rfl
        simp [hd]
    rw [List.cons_append, readName?, if_pos hstart, List.takeWhile_append_of_pos hall,
      List.dropWhile_append_of_pos hall, hstop.1, hstop.2, List.append_nil]

theorem length_of_readName? {cs name rest : List Char} (h : readName? cs = some (name, rest)) :
    rest.length < cs.length := by
  unfold readName? at h
  split at h
  · cases h
  split at h
  · cases h
    exact Nat.lt_succ_of_le (List.dropWhile_suffix _).length_le
  · cases h

/-! ## Numbers -/

/-- Reads a whole number in decimal digits.  A zero in front of other digits is refused: it would be another notation. -/
def readNumber? (cs : List Char) : Option (Nat × List Char) :=
  match cs.takeWhile Char.isDigit with
  | [] | '0' :: _ :: _ => none
  | digits => some (Nat.ofDigitChars 10 digits 0, cs.dropWhile Char.isDigit)

theorem length_of_readNumber? {cs rest : List Char} {n : Nat} (h : readNumber? cs = some (n, rest)) :
    rest.length < cs.length := by
  have hsplit := congrArg List.length (List.takeWhile_append_dropWhile (p := Char.isDigit) (l := cs))
  rw [List.length_append] at hsplit
  unfold readNumber? at h
  split at h
  · cases h
  · cases h
  · rename_i hne _
    cases h
    have := List.length_pos_iff.2 hne
    omega

/-- The digits of a number begin with a zero only where the number is zero. -/
theorem head?_toDigits (n : Nat) (h : 0 < n) : (Nat.toDigits 10 n).head? ≠ some '0' := by
  by_cases hn : n < 10
  · simp [Nat.toDigits_of_lt_base hn, Nat.ne_of_gt h]
  · rw [Nat.toDigits_of_base_le (by decide) (by omega), List.head?_append_of_ne_nil _ Nat.toDigits_ne_nil]
    exact head?_toDigits (n / 10) (by omega)

/-- **The numeral of a number reads as the number**, if what follows is no digit. -/
theorem readNumber?_repr (n : Nat) {rest : List Char} (hrest : ∀ c ∈ rest.head?, c.isDigit = false) :
    readNumber? ((Nat.repr n).toList ++ rest) = some (n, rest) := by
  have hdigits : ∀ c ∈ Nat.toDigits 10 n, c.isDigit = true := fun c =>
    Nat.isDigit_of_mem_toDigits (by decide) (by decide)
  have hstop : rest.takeWhile Char.isDigit = [] ∧ rest.dropWhile Char.isDigit = rest := by
    cases rest with
    | nil => exact ⟨rfl, rfl⟩
    | cons d rest => simp [hrest d rfl]
  rw [Nat.toList_repr, readNumber?, List.takeWhile_append_of_pos hdigits, List.dropWhile_append_of_pos hdigits, hstop.1,
    hstop.2, List.append_nil]
  split
  · rename_i hnil
    exact absurd hnil Nat.toDigits_ne_nil
  · rename_i d more hzero
    have hn : n = 0 := by
      by_contra hne
      exact head?_toDigits n (Nat.pos_of_ne_zero hne) (by rw [hzero]; rfl)
    subst hn
    cases hzero
  · rw [Nat.ofDigitChars_ten_toDigits]

/-! ## Escapes -/

/-- The value of a hexadecimal digit. -/
def hexValue? (c : Char) : Option Nat :=
  if c.isDigit then some (c.toNat - 48)
  else if 97 ≤ c.toNat && c.toNat ≤ 102 then some (c.toNat - 87)
  else if 65 ≤ c.toNat && c.toNat ≤ 70 then some (c.toNat - 55)
  else none

/-- The number that hexadecimal digits spell. -/
def hexNumber? (cs : List Char) : Option Nat :=
  cs.foldlM (fun n c => (hexValue? c).map (16 * n + ·)) 0

/-- The character with a number, `none` if there is none, as for half of a character. -/
def charOf? (n : Nat) : Option Char :=
  if n.isValidChar then some (Char.ofNat n) else none

/-- What a letter stands for behind a backslash, if it stands for a character of its own. -/
def single? : Char → Option Char
  | 'b' => some '\x08'
  | 'f' => some '\x0c'
  | 'n' => some '\n'
  | 'r' => some '\r'
  | 't' => some '\t'
  | 'v' => some '\x0b'
  | _ => none

/-- Whether the character ends a line. -/
def endsLine (c : Char) : Bool :=
  c == '\n' || c == '\r' || c == '\u2028' || c == '\u2029'

/-- Reads a character by so many hexadecimal digits. -/
def readDigits? (count : Nat) (cs : List Char) : Option (List Char × List Char) :=
  if cs.length < count then none
  else ((hexNumber? (cs.take count)).bind charOf?).map fun d => ([d], cs.drop count)

/-- Reads a character by hexadecimal digits up to a closing brace. -/
def readBraced? (cs : List Char) : Option (List Char × List Char) :=
  let digits := cs.takeWhile (· != '}')
  if digits.isEmpty || digits.length == cs.length then none
  else ((hexNumber? digits).bind charOf?).map fun d => ([d], cs.drop (digits.length + 1))

/-- Reads a character by its number, from behind the `u`. -/
def readNumbered? : List Char → Option (List Char × List Char)
  | '{' :: rest => readBraced? rest
  | cs => readDigits? 4 cs

/-- **Reads an escape** from behind its backslash: what it stands for, and what follows it.  A line end stands for nothing, a
character without a meaning of its own for itself; digits other than a single `0` are refused. -/
def readEscape? : List Char → Option (List Char × List Char)
  | [] => none
  | c :: rest =>
    if let some d := single? c then some ([d], rest)
    else if c = 'x' then readDigits? 2 rest
    else if c = 'u' then readNumbered? rest
    else if c.isDigit then
      if c = '0' && !rest.head?.any Char.isDigit then some (['\x00'], rest) else none
    else if c = '\r' && rest.head? = some '\n' then some ([], rest.tail)
    else if endsLine c then some ([], rest)
    else some ([c], rest)

theorem length_of_map_drop {cs read rest : List Char} {n : Nat} {x : Option Char}
    (h : (x.map fun d => ([d], cs.drop n)) = some (read, rest)) : rest.length ≤ cs.length := by
  obtain ⟨d, -, hd⟩ := Option.map_eq_some_iff.1 h
  cases hd
  simp

theorem length_of_readDigits? {count : Nat} {cs read rest : List Char} (h : readDigits? count cs = some (read, rest)) :
    rest.length ≤ cs.length := by
  unfold readDigits? at h
  split at h
  · cases h
  · exact length_of_map_drop h

theorem length_of_readBraced? {cs read rest : List Char} (h : readBraced? cs = some (read, rest)) :
    rest.length ≤ cs.length := by
  unfold readBraced? at h
  dsimp only at h
  split at h
  · cases h
  · exact length_of_map_drop h

theorem length_of_readNumbered? {cs read rest : List Char} (h : readNumbered? cs = some (read, rest)) :
    rest.length ≤ cs.length := by
  unfold readNumbered? at h
  split at h
  · exact Nat.le_succ_of_le (length_of_readBraced? h)
  · exact length_of_readDigits? h

theorem length_of_readEscape? {cs read rest : List Char} (h : readEscape? cs = some (read, rest)) :
    rest.length < cs.length := by
  cases cs with
  | nil => cases h
  | cons c cs =>
    rw [List.length_cons, Nat.lt_succ_iff]
    unfold readEscape? at h
    dsimp only at h
    split at h
    · cases h
      exact Nat.le_refl _
    split at h
    · exact length_of_readDigits? h
    split at h
    · exact length_of_readNumbered? h
    split at h
    · split at h <;> cases h
      exact Nat.le_refl _
    split at h
    · cases h
      simp
    split at h <;> cases h <;> exact Nat.le_refl _

/-! ## Strings -/

/-- Reads a string from behind its opening quote: what it says, and what follows its closing quote. -/
def readQuoted? : List Char → Option (List Char × List Char)
  | [] => none
  | c :: rest =>
    if c = '"' then some ([], rest)
    else if c = '\\' then
      match _h : readEscape? rest with
      | some (read, more) => (readQuoted? more).map fun (cs, behind) => (read ++ cs, behind)
      | none => none
    else if c = '\n' || c = '\r' then none
    else (readQuoted? rest).map fun (cs, behind) => (c :: cs, behind)
termination_by cs => cs.length
decreasing_by
  · have := length_of_readEscape? _h
    simp only [List.length_cons]
    omega
  · simp

theorem length_of_readQuoted? {cs read rest : List Char} (h : readQuoted? cs = some (read, rest)) :
    rest.length < cs.length := by
  fun_induction readQuoted? cs generalizing read rest with
  | case1 => cases h
  | case2 => cases h; simp
  | case3 more escaped behind hescape _ ih =>
    obtain ⟨⟨read', rest'⟩, hmore, hread⟩ := Option.map_eq_some_iff.1 h
    cases hread
    have := ih hmore
    have := length_of_readEscape? hescape
    simp only [List.length_cons]
    omega
  | case4 => cases h
  | case5 => cases h
  | case6 c more _ _ _ ih =>
    obtain ⟨⟨read', rest'⟩, hmore, hread⟩ := Option.map_eq_some_iff.1 h
    cases hread
    exact Nat.lt_succ_of_lt (ih hmore)

/-- Reads a double-quoted string: what it says, and what follows it. -/
def readString? : List Char → Option (List Char × List Char)
  | '"' :: rest => readQuoted? rest
  | _ => none

variable {c x : Char} {cs rest : List Char}

/-! ## What is quoted -/

theorem length_hexDigits : ∀ width n : Nat, (Text.hexDigits width n).length = width
  | 0, _ => rfl
  | width + 1, n => by rw [Text.hexDigits, List.length_append, length_hexDigits width, List.length_singleton]

theorem hexValue?_hexDigit {n : Nat} (h : n < 16) : hexValue? (Text.hexDigit n) = some n := by
  have hall : ∀ k : Fin 16, hexValue? (Text.hexDigit k) = some k.val := by decide
  exact hall ⟨n, h⟩

/-- Hexadecimal digits spell what is left of a number beyond them. -/
theorem hexNumber?_hexDigits : ∀ width n : Nat, hexNumber? (Text.hexDigits width n) = some (n % 16 ^ width)
  | 0, n => by simp [Text.hexDigits, hexNumber?, Nat.mod_one]
  | width + 1, n => by
    have ih := hexNumber?_hexDigits width (n / 16)
    have hdigit := hexValue?_hexDigit (Nat.mod_lt n (by decide : 0 < 16))
    have hnumber : n % 16 ^ (width + 1) = 16 * (n / 16 % 16 ^ width) + n % 16 := by
      rw [Nat.pow_succ, Nat.mul_comm, Nat.mod_mul, Nat.add_comm]
    unfold hexNumber? at ih ⊢
    rw [Text.hexDigits, List.foldlM_append, ih, hnumber]
    simp [hdigit]

theorem readEscape?_hexDigits {n : Nat} (hn : n < 16 ^ 4) (hvalid : n.isValidChar) :
    readEscape? ('u' :: (Text.hexDigits 4 n ++ rest)) = some ([Char.ofNat n], rest) := by
  have hlength := length_hexDigits 4 n
  have hfits : ¬ (Text.hexDigits 4 n ++ rest).length < 4 := by
    rw [List.length_append]
    omega
  have hbrace : ∀ more, Text.hexDigits 4 n ++ rest ≠ '{' :: more := by
    intro more h
    have hdigit : ∀ k : Fin 16, Text.hexDigit k ≠ '{' := by decide
    exact hdigit ⟨n / 16 / 16 / 16 % 16, Nat.mod_lt _ (by decide)⟩ (List.cons.inj h).1
  change readNumbered? (Text.hexDigits 4 n ++ rest) = _
  rw [readNumbered?, readDigits?, if_neg hfits, List.take_left' hlength, List.drop_left' hlength, hexNumber?_hexDigits,
    Nat.mod_eq_of_lt hn]
  · simp [charOf?, hvalid]
  · exact hbrace

theorem readQuoted?_escape {read : List Char} (h : readEscape? cs = some (read, rest)) :
    readQuoted? ('\\' :: cs) = (readQuoted? rest).map fun (cs, behind) => (read ++ cs, behind) := by
  rw [readQuoted?, if_neg (by decide), if_pos rfl]
  split
  · rename_i h'
    cases h.symm.trans h'
    rfl
  · rename_i h'
    cases h.symm.trans h'

theorem readQuoted?_char (hquote : c ≠ '"') (hback : c ≠ '\\') (hline : c ≠ '\n' ∧ c ≠ '\r') :
    readQuoted? (c :: cs) = (readQuoted? cs).map fun (cs, behind) => (c :: cs, behind) := by
  rw [readQuoted?, if_neg hquote, if_neg hback, if_neg (by simpa using hline)]

theorem readEscape?_shortEscapes (h : (c, x) ∈ Text.shortEscapes) : readEscape? (x :: rest) = some ([c], rest) := by
  simp only [Text.shortEscapes, List.mem_cons, Prod.mk.injEq, List.not_mem_nil, or_false] at h
  rcases h with ⟨rfl, rfl⟩ | ⟨rfl, rfl⟩ | ⟨rfl, rfl⟩ | ⟨rfl, rfl⟩ | ⟨rfl, rfl⟩ | ⟨rfl, rfl⟩ | ⟨rfl, rfl⟩
  all_goals rfl

/-- **An escaped character reads as the character.** -/
theorem readQuoted?_escapeQuoted (c : Char) (rest : List Char) : readQuoted? (Text.escapeQuoted c ++ rest) =
    (readQuoted? rest).map fun (cs, behind) => (c :: cs, behind) := by
  rcases Text.escapeQuoted_cases c with ⟨h, hcontrol, hquote, hback⟩ | ⟨x, h, hx⟩ | ⟨h, hcontrol⟩
  · have hline : c ≠ '\n' ∧ c ≠ '\r' := by
      constructor <;> rintro rfl <;> exact absurd hcontrol (by decide)
    rw [h]
    exact readQuoted?_char hquote hback hline
  · rw [h]
    exact readQuoted?_escape (readEscape?_shortEscapes hx)
  · have hread : readEscape? ('u' :: (Text.hexDigits 4 c.toNat ++ rest)) = some ([Char.ofNat c.toNat], rest) :=
      readEscape?_hexDigits (by omega) (.inl (by omega))
    rw [Char.ofNat_toNat] at hread
    rw [h]
    exact readQuoted?_escape hread

theorem readQuoted?_flatMap (rest : List Char) : ∀ cs : List Char,
    readQuoted? (cs.flatMap Text.escapeQuoted ++ '"' :: rest) = some (cs, rest)
  | [] => by simp [readQuoted?]
  | c :: cs => by
    rw [List.flatMap_cons, List.append_assoc, readQuoted?_escapeQuoted, readQuoted?_flatMap rest cs]
    rfl

/-- **A quoted text reads as the text**, and the literal ends where its quote does. -/
theorem readString?_quote (text : String) (rest : List Char) :
    readString? ((Text.quote text).toList ++ rest) = some (text.toList, rest) := by
  rw [Text.quote, String.toList_ofList, List.cons_append, readString?, List.append_assoc, List.singleton_append]
  exact readQuoted?_flatMap rest text.toList

end Script
end TypedClient
