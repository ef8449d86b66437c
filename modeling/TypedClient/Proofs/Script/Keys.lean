import TypedClient.Emit.Method
import TypedClient.Proofs.Linking.Names
import TypedClient.Proofs.Script.Literals
/-!
# Keys — the names that printed keys denote

A key is read as the language reads the name of a property: a name denotes itself and ends where no name goes on, a text in
quotes denotes what it says.  A key denotes the name that it was made from, wherever it stands, unless that is an identifier
with a line feed behind it (`Overruns`): such a name is printed bare, and its line feed is none of the key's
(`readKey?_propertyKey`).  So the members of interfaces and of request objects are called what they were made from, and names
that do not overrun have different keys (`keys_denote_iff`).
-/
namespace TypedClient
namespace Script

open Emit (propertyKey isBareKey)

variable {name other line : String} {cs rest blanks : List Char}

/-! ## Reading keys -/

/-- **Reads the key of a property**: the name that it denotes, and what follows it. -/
def readKey? : List Char → Option (List Char × List Char)
  | '"' :: rest => readQuoted? rest
  | cs => readName? cs

/-- The name that a text denotes as the key of a property, if it is all of it. -/
def keyName? (text : String) : Option String :=
  match readKey? text.toList with
  | some (name, []) => some (String.ofList name)
  | _ => none

/-- **The name of the member that a line declares**: its key stands before a colon, with a question mark between them if the
member may be left out. -/
def member? (line : String) : Option String :=
  match readKey? (line.toList.dropWhile Text.isBlank) with
  | some (name, rest) =>
    match rest.dropWhile Text.isBlank with
    | ':' :: _ | '?' :: ':' :: _ => some (String.ofList name)
    | _ => none
  | none => none

/-! ## Keys that are printed -/

/-- **Whether a name is an identifier that a line feed follows**, and nothing behind it. -/
def Overruns (name : String) : Prop :=
  name.toList.getLast? = some '\n' ∧ Naming.isIdentifier name.toList.dropLast = true

instance (name : String) : Decidable (Overruns name) := inferInstanceAs (Decidable (_ ∧ _))

/-- The name that the key of a name denotes. -/
def denoted (name : String) : List Char :=
  if Overruns name then name.toList.dropLast else name.toList

/-- What stands between the name that a key denotes and its end. -/
def overrun (name : String) : List Char :=
  if Overruns name then ['\n'] else []

/-- A name is read as a key, for it has no quote in front. -/
theorem readKey?_name (h : isName cs = true) (hrest : ∀ c ∈ rest.head?, isNameChar c = false) :
    readKey? (cs ++ rest) = some (cs, rest) := by
  have hread := readName?_append h hrest
  cases cs with
  | nil => cases h
  | cons c more =>
    rw [List.cons_append] at hread ⊢
    rw [readKey?, hread]
    rintro behind heq
    obtain ⟨rfl, -⟩ := List.cons.inj heq
    rw [isName, Bool.and_eq_true] at h
    exact absurd h.1 (by decide)

theorem readKey?_quote (text : String) (rest : List Char) :
    readKey? ((Text.quote text).toList ++ rest) = some (text.toList, rest) := by
  have hread := readString?_quote text rest
  rw [Text.quote, String.toList_ofList, List.cons_append] at hread ⊢
  exact hread

theorem isBareKey_iff : isBareKey name = true ↔ Naming.isIdentifier name.toList = true ∨ Overruns name := by
  rw [isBareKey, Bool.or_eq_true, Bool.and_eq_true, beq_iff_eq, Overruns]

theorem Overruns.toList_eq (h : Overruns name) : name.toList = name.toList.dropLast ++ ['\n'] :=
  (List.dropLast_append_getLast? _ h.1).symm

/-- **A key is read to the end of the name that it denotes**, if what follows does not go on with it. -/
theorem readKey?_propertyKey (name : String) (hrest : ∀ c ∈ rest.head?, isNameChar c = false) :
    readKey? ((propertyKey name).toList ++ rest) = some (denoted name, overrun name ++ rest) := by
  by_cases hover : Overruns name
  · have hbare : propertyKey name = name := if_pos (isBareKey_iff.2 (.inr hover))
    rw [hbare, denoted, if_pos hover, overrun, if_pos hover, hover.toList_eq, List.append_assoc, List.dropLast_concat]
    -- the line feed goes on with no name, so that the key ends before it
    refine readKey?_name (isName_of_isIdentifier hover.2) fun c hc => ?_
    rw [← Option.some.inj hc]
    decide
  · rw [denoted, if_neg hover, overrun, if_neg hover, List.nil_append]
    by_cases hname : Naming.isIdentifier name.toList = true
    · have hbare : propertyKey name = name := if_pos (isBareKey_iff.2 (.inl hname))
      rw [hbare]
      exact readKey?_name (isName_of_isIdentifier hname) hrest
    · have hquoted : propertyKey name = Text.quote name := if_neg fun hbare => (isBareKey_iff.1 hbare).elim hname hover
      rw [hquoted]
      exact readKey?_quote name rest

theorem readKey?_propertyKey_alone (name : String) :
    readKey? (propertyKey name).toList = some (denoted name, overrun name) := by
  have hnone : ∀ c ∈ ([] : List Char).head?, isNameChar c = false := nofun
  have hread := readKey?_propertyKey name hnone
  rwa [List.append_nil, List.append_nil] at hread

theorem denoted_append_overrun (name : String) : denoted name ++ overrun name = name.toList := by
  by_cases hover : Overruns name
  · rw [denoted, if_pos hover, overrun, if_pos hover, ← hover.toList_eq]
  · rw [denoted, if_neg hover, overrun, if_neg hover, List.append_nil]

theorem denoted_eq_iff : denoted name = name.toList ↔ ¬ Overruns name := by
  refine ⟨fun h hover => ?_, fun h => if_neg h⟩
  rw [denoted, if_pos hover] at h
  have hlength := congrArg List.length (h.trans hover.toList_eq)
  rw [List.length_append, List.length_singleton] at hlength
  omega

theorem keyName?_propertyKey (name : String) :
    keyName? (propertyKey name) = if Overruns name then none else some name := by
  rw [keyName?, readKey?_propertyKey_alone]
  by_cases hover : Overruns name
  · rw [overrun, if_pos hover, if_pos hover]
  · rw [overrun, if_neg hover, if_neg hover, denoted, if_neg hover]
    exact congrArg some String.ofList_toList

theorem propertyKey_injective : Function.Injective propertyKey := by
  intro name other heq
  -- a key that denotes another name leaves over what that name is short of
  have hread := readKey?_propertyKey_alone name
  rw [heq, readKey?_propertyKey_alone, Option.some.injEq, Prod.mk.injEq] at hread
  rw [← String.toList_inj, ← denoted_append_overrun name, ← denoted_append_overrun other, hread.1, hread.2]

/-! ## Members -/

theorem isBlank_of_isIdentifierChar (h : Naming.isIdentifierChar c = true) : Text.isBlank c = false :=
  Naming.of_isIdentifierChar (p := fun c => Text.isBlank c = false) (by decide) h

theorem exists_identifier_cons (h : Naming.isIdentifier cs = true) : ∃ c rest, cs = c :: rest ∧ Text.isBlank c = false := by
  cases cs with
  | nil => cases h
  | cons c rest =>
    rw [Naming.isIdentifier, Bool.and_eq_true] at h
    exact ⟨c, rest, rfl, isBlank_of_isIdentifierChar (Naming.isIdentifierChar_of_start h.1)⟩

theorem exists_propertyKey_cons (name : String) :
    ∃ c cs, (propertyKey name).toList = c :: cs ∧ Text.isBlank c = false := by
  by_cases hbare : isBareKey name = true
  · rw [propertyKey, if_pos hbare]
    rcases isBareKey_iff.1 hbare with hname | hover
    · exact exists_identifier_cons hname
    · obtain ⟨c, rest, hfirst, hc⟩ := exists_identifier_cons hover.2
      refine ⟨c, rest ++ ['\n'], ?_, hc⟩
      rw [hover.toList_eq, hfirst, List.cons_append]
  · rw [propertyKey, if_neg hbare, Text.quote, String.toList_ofList]
    exact ⟨_, _, rfl, by decide⟩

/-- **A line declares the member whose key it has before a colon.** -/
theorem member?_of_toList (hblanks : ∀ c ∈ blanks, Text.isBlank c = true)
    (hrest : ∃ more, rest = ':' :: more ∨ rest = '?' :: ':' :: more)
    (hline : line.toList = blanks ++ ((propertyKey name).toList ++ rest)) :
    member? line = some (String.ofList (denoted name)) := by
  have hkey : line.toList.dropWhile Text.isBlank = (propertyKey name).toList ++ rest := by
    obtain ⟨c, cs, hcs, hc⟩ := exists_propertyKey_cons name
    rw [hline, List.dropWhile_append_of_pos hblanks, hcs, List.cons_append,
      List.dropWhile_cons_of_neg (Bool.eq_false_iff.1 hc)]
  have hstop : ∀ c ∈ rest.head?, isNameChar c = false ∧ Text.isBlank c = false := by
    rintro c hc
    obtain ⟨more, rfl | rfl⟩ := hrest <;> exact Option.some.inj hc ▸ by decide
  have hgap : (overrun name ++ rest).dropWhile Text.isBlank = rest := by
    have hover : ∀ c ∈ overrun name, Text.isBlank c = true := by
      intro c hc
      rw [overrun] at hc
      split at hc
      · exact List.mem_singleton.1 hc ▸ by decide
      · cases hc
    rw [List.dropWhile_append_of_pos hover]
    exact Text.dropWhile_eq_self_iff_head?.2 fun c hc => (hstop c hc).2
  rw [member?, hkey, readKey?_propertyKey name fun c hc => (hstop c hc).1]
  dsimp only
  rw [hgap]
  obtain ⟨more, rfl | rfl⟩ := hrest <;> rfl

/-- What a member is called, in an interface and among the entries of a request. -/
theorem member?_declared (f : Emit.Field) : ∃ line, f.declaration = Emit.commentBlock f.doc 2 ++ line ∧
    member? line = some (String.ofList (denoted f.name)) := by
  refine ⟨"  " ++ propertyKey f.name ++ ((if f.required then "" else "?") ++ ": " ++ f.type.text ++ ";\n"), ?_, ?_⟩
  · simp only [Emit.Field.declaration, String.append_assoc]
  · have hblanks : "  ".toList.all Text.isBlank = true := by decide
    have hrest : ∃ more, ((if f.required then "" else "?") ++ ": " ++ f.type.text ++ ";\n").toList = ':' :: more ∨
        ((if f.required then "" else "?") ++ ": " ++ f.type.text ++ ";\n").toList = '?' :: ':' :: more := by
      simp only [String.toList_append]
      cases f.required
      · exact ⟨_, .inr rfl⟩
      · exact ⟨_, .inl rfl⟩
    refine member?_of_toList (List.all_eq_true.1 hblanks) hrest ?_
    rw [String.toList_append, String.toList_append, List.append_assoc]

theorem member?_entry (a : Emit.Argument) : member? a.entry = some (String.ofList (denoted (a.pathName.getD ""))) := by
  have hblanks : "        ".toList.all Text.isBlank = true := by decide
  have hrest : ∃ more, (": " ++ a.name ++ ",\n").toList = ':' :: more ∨
      (": " ++ a.name ++ ",\n").toList = '?' :: ':' :: more := by
    simp only [String.toList_append]
    exact ⟨_, .inl rfl⟩
  refine member?_of_toList (List.all_eq_true.1 hblanks) hrest ?_
  simp only [Emit.Argument.entry, String.toList_append, List.append_assoc]

/-- **Which keys denote the name that they were made from**: those of the names that no line feed overruns, by themselves and
where they stand in interfaces, query objects and header objects.  Different names have different keys in any case, and those
that denote the names they were made from denote different ones. -/
theorem keys_denote_iff (name : String) :
    (keyName? (propertyKey name) = some name ↔ ¬Overruns name) ∧
    (∀ f : Emit.Field, f.name = name → ∃ line, f.declaration = Emit.commentBlock f.doc 2 ++ line ∧
      (member? line = some name ↔ ¬Overruns name)) ∧
    (∀ a : Emit.Argument, a.pathName = some name → (member? a.entry = some name ↔ ¬Overruns name)) ∧
    ∀ other, name ≠ other → propertyKey name ≠ propertyKey other ∧
      (¬Overruns name → ¬Overruns other → keyName? (propertyKey name) ≠ keyName? (propertyKey other)) := by
  have hdenoted : some (String.ofList (denoted name)) = some name ↔ ¬Overruns name := by
    rw [Option.some.injEq, ← denoted_eq_iff, ← String.toList_inj, String.toList_ofList]
  refine ⟨?_, ?_, ?_, fun other hne => ⟨fun heq => hne (propertyKey_injective heq), fun hname hother heq => ?_⟩⟩
  · rw [keyName?_propertyKey]
    split <;> simp_all
  · rintro f rfl
    obtain ⟨line, hline, hmember⟩ := member?_declared f
    exact ⟨line, hline, hmember ▸ hdenoted⟩
  · intro a ha
    rw [member?_entry, ha]
    exact hdenoted
  · rw [keyName?_propertyKey, keyName?_propertyKey, if_neg hname, if_neg hother, Option.some.injEq] at heq
    exact hne heq

theorem lineFeeds_denoted : propertyKey "2nd\n" = "\"2nd\\n\"" ∧ propertyKey "id" ≠ propertyKey "2nd\n" ∧
    keyName? (propertyKey "id") ≠ keyName? (propertyKey "2nd\n") := by
  obtain ⟨htexts, hnames⟩ := (keys_denote_iff "id").2.2.2 "2nd\n" (by decide)
  exact ⟨by decide +kernel, htexts, hnames (by decide) (by decide)⟩

/-- The line feed behind an identifier is left outside its key, which denotes what the key of the identifier does. -/
theorem lineFeed_overruns : keyName? (propertyKey "id\n") ≠ some "id\n" ∧
    readKey? (propertyKey "id\n").toList = some ("id".toList, ['\n']) ∧
    readKey? (propertyKey "id").toList = some ("id".toList, []) := by
  decide +kernel

end Script
end TypedClient
