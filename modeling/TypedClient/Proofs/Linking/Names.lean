import TypedClient.Proofs.Pointer
import TypedClient.Proofs.Scope.Growth
import TypedClient.Proofs.Steps
import TypedClient.Proofs.Trimming
import TypedClient.Operation.Generate
import TypedClient.Settings.Check
/-!
# Names — names with a dot and names without

The root scope knows every definition by a name with a dot in it, behind the name of the scope that it was made in.  The
names inside a module have no dot, so that no such name can be mistaken for that of the root, and what follows the last
dot of a qualified name is the name in its module (`afterLast_qualify`).  The names made from the texts of a document
have no dot, and nor have those of the API classes.
-/
namespace TypedClient

/-- Whether no dot is in a name. -/
def Dotless (name : String) : Prop := '.' ∉ name.toList

instance (name : String) : Decidable (Dotless name) := inferInstanceAs (Decidable (¬ _))

theorem Dotless.append {a b : String} (ha : Dotless a) (hb : Dotless b) : Dotless (a ++ b) := by
  unfold Dotless
  rw [String.toList_append, List.mem_append]
  exact not_or.2 ⟨ha, hb⟩

theorem dotless_toString (n : Nat) : Dotless (toString n) := by
  intro h
  exact absurd (Text.isDigit_of_mem_repr n '.' h) (by decide)

namespace Scope

/-! ## Qualified names -/

theorem toList_qualify (scope name : String) :
    (Tree.qualify scope name).toList = scope.toList ++ '.' :: name.toList := by
  simp [Tree.qualify]

theorem not_dotless_qualify (scope name : String) : ¬ Dotless (Tree.qualify scope name) := by
  unfold Dotless
  rw [toList_qualify]
  simp

theorem afterLast_of_dotless {name : String} (h : Dotless name) : Text.afterLast '.' name = name := by
  have hname : Text.splitBy (· == '.') name.toList = [name.toList] := by
    refine Text.splitBy_of_none _ _ fun c hc => ?_
    rw [beq_eq_false_iff_ne]
    rintro rfl
    exact h hc
  unfold Text.afterLast Text.splitAt
  rw [hname]
  simp

/-- What follows the last dot is a part of the text without a dot. -/
theorem mem_afterLast {name : String} {c : Char} (h : c ∈ (Text.afterLast '.' name).toList) : c ∈ name.toList ∧ c ≠ '.' := by
  have hlast : Text.afterLast '.' name =
      String.ofList ((Text.splitBy (· == '.') name.toList).getLast (Text.splitBy_ne_nil _ _)) := by
    unfold Text.afterLast Text.splitAt
    rw [List.getLastD_eq_getLast?, List.getLast?_map, List.getLast?_eq_getLast_of_ne_nil (Text.splitBy_ne_nil _ _)]
    rfl
  rw [hlast, String.toList_ofList] at h
  have hpart := Text.mem_of_mem_splitBy (List.getLast_mem (Text.splitBy_ne_nil _ _)) c h
  exact ⟨hpart.1, by simpa using hpart.2⟩

/-- What follows the last dot of a qualified name follows it in the name itself. -/
theorem afterLast_qualify_eq (scope name : String) :
    Text.afterLast '.' (Tree.qualify scope name) = Text.afterLast '.' name := by
  unfold Text.afterLast Text.splitAt
  rw [toList_qualify, Text.splitBy_append _ '.' (by decide)]
  cases hname : Text.splitBy (· == '.') name.toList with
  | nil => exact absurd hname (Text.splitBy_ne_nil _ _)
  | cons part parts => simp [List.getLastD_eq_getLast?, List.getLast?_append, List.getLast?_cons]

theorem afterLast_qualify {name : String} (h : Dotless name) (scope : String) :
    Text.afterLast '.' (Tree.qualify scope name) = name := by
  rw [afterLast_qualify_eq, afterLast_of_dotless h]

/-- A qualified name tells the scope and the name. -/
theorem Tree.qualify_inj {scope scope' name name' : String} (hname : Dotless name) (hname' : Dotless name')
    (h : qualify scope name = qualify scope' name') : scope = scope' ∧ name = name' := by
  have hlast : name = name' := by
    rw [← afterLast_qualify hname scope, h, afterLast_qualify hname']
  subst hlast
  have hlist := congrArg String.toList h
  rw [toList_qualify, toList_qualify] at hlist
  exact ⟨String.toList_inj.1 (List.append_cancel_right hlist), rfl⟩

/-! ## Free names -/

namespace Table

theorem exists_freeName_eq_candidate (table : Table) (short : String) : ∃ n, table.freeName short = candidate short n :=
  exists_chosen (candidate short) _ _

theorem dotless_freeName (table : Table) {short : String} (h : Dotless short) : Dotless (table.freeName short) := by
  obtain ⟨n, hn⟩ := table.exists_freeName_eq_candidate short
  rw [hn]
  unfold candidate
  split
  · exact h
  · exact (h.append (by decide)).append (dotless_toString _)

end Table
end Scope

/-! ## Names made from text -/

namespace Naming

/-- Whether a name has the characters of an identifier only. -/
def Plain (name : String) : Prop := ∀ c ∈ name.toList, isIdentifierChar c = true

-- character by character: the characters of the name, not all there are
instance (name : String) : Decidable (Plain name) := List.decidableBAll (isIdentifierChar · = true) name.toList

theorem Plain.dotless {name : String} (h : Plain name) : Dotless name := by
  intro hdot
  exact absurd (h '.' hdot) (by decide)

theorem Plain.append {a b : String} (ha : Plain a) (hb : Plain b) : Plain (a ++ b) := by
  intro c hc
  rw [String.toList_append, List.mem_append] at hc
  exact hc.elim (ha c) (hb c)

theorem plain_toString (n : Nat) : Plain (toString n) := by
  intro c hc
  simp [isIdentifierChar, Char.isAlphanum, Text.isDigit_of_mem_repr n c hc]

theorem isIdentifierChar_of_mem_joinRuns : ∀ cs : List Char, ∀ c ∈ joinRuns cs, isIdentifierChar c = true
  | [], _, h => nomatch h
  | d :: rest, c, h => by
    have ih := isIdentifierChar_of_mem_joinRuns rest
    unfold joinRuns at h
    by_cases hd : isIdentifierChar d = true
    · rw [if_pos hd] at h
      rcases List.mem_cons.1 h with rfl | h
      · exact hd
      · exact ih c h
    · rw [if_neg hd] at h
      cases rest with
      | nil =>
        rw [List.mem_singleton.1 h]
        decide
      | cons e rest =>
        simp only at h
        by_cases he : isIdentifierChar e = true
        · rw [if_pos he] at h
          rcases List.mem_cons.1 h with rfl | h
          · decide
          · exact ih c h
        · rw [if_neg he] at h
          exact ih c h

theorem isIdentifierChar_of_mem_core (cs : List Char) (c : Char) (h : c ∈ core cs) : isIdentifierChar c = true := by
  unfold core at h
  split at h
  · have hv : Plain "value" := by decide
    exact hv c h
  · exact isIdentifierChar_of_mem_joinRuns cs c (Text.mem_of_mem_dropEnds h)

theorem core_ne_nil (cs : List Char) : core cs ≠ [] := by
  unfold core
  split
  · exact List.cons_ne_nil _ _
  · rename_i hkept
    exact hkept

theorem isIdentifierChar_of_mem_shieldDigit {cs : List Char} (h : ∀ c ∈ cs, isIdentifierChar c = true) :
    ∀ c ∈ shieldDigit cs, isIdentifierChar c = true := by
  cases cs with
  | nil => exact fun _ hc => nomatch hc
  | cons d rest =>
    intro c hc
    unfold shieldDigit at hc
    dsimp only at hc
    split at hc
    · rcases List.mem_cons.1 hc with rfl | hc
      · decide
      · exact h c hc
    · exact h c hc

/-- **A name made from text has the characters of an identifier only.** -/
theorem plain_sanitize (raw : String) : Plain (sanitize raw) := by
  have hcore := isIdentifierChar_of_mem_shieldDigit (isIdentifierChar_of_mem_core raw.toList)
  have hword : Plain (String.ofList (shieldDigit (core raw.toList))) := by
    intro c hc
    rw [String.toList_ofList] at hc
    exact hcore c hc
  unfold sanitize shieldReserved
  split
  · exact hword.append (by decide)
  · exact hword

/-- Whether a name can name an argument: an identifier that is no reserved word. -/
structure Proper (name : String) : Prop where
  identifier : isIdentifier name.toList = true
  unreserved : name ∉ reservedWords

theorem isIdentifierChar_of_start {c : Char} (h : isIdentifierStart c = true) : isIdentifierChar c = true := by
  unfold isIdentifierStart at h
  unfold isIdentifierChar Char.isAlphanum
  rw [Bool.or_right_comm c.isAlpha, Bool.or_right_comm (c.isAlpha || c == '_'), h]
  rfl

theorem Proper.plain {name : String} (h : Proper name) : Plain name := by
  have hall := h.identifier
  unfold Plain
  cases hl : name.toList with
  | nil => exact nofun
  | cons c rest =>
    rw [hl, isIdentifier, Bool.and_eq_true, List.all_eq_true] at hall
    exact List.forall_mem_cons.2 ⟨isIdentifierChar_of_start hall.1, hall.2⟩

theorem isIdentifier_append {cs ds : List Char} (h : isIdentifier cs = true)
    (hds : ∀ d ∈ ds, isIdentifierChar d = true) : isIdentifier (cs ++ ds) = true := by
  cases cs with
  | nil => exact nomatch h
  | cons c rest =>
    rw [isIdentifier, Bool.and_eq_true, List.all_eq_true] at h
    rw [List.cons_append, isIdentifier, Bool.and_eq_true, List.all_append, Bool.and_eq_true, List.all_eq_true,
      List.all_eq_true]
    exact ⟨h.1, h.2, hds⟩

/-- Reserved words are in small letters, and what goes on with another character is none. -/
theorem unreserved_append {base suffix : String} {c : Char} (hc : c ∈ suffix.toList) (hlower : c.isLower = false) :
    base ++ suffix ∉ reservedWords := by
  have hwords : ∀ word ∈ reservedWords, word.toList.all (·.isLower) = true := by decide
  intro hword
  have hmem : c ∈ (base ++ suffix).toList := by
    rw [String.toList_append]
    exact List.mem_append_right _ hc
  exact Bool.false_ne_true (hlower.symm.trans (List.all_eq_true.1 (hwords _ hword) c hmem))

theorem isIdentifier_shieldDigit {cs : List Char} (hne : cs ≠ []) (h : ∀ c ∈ cs, isIdentifierChar c = true) :
    isIdentifier (shieldDigit cs) = true := by
  cases cs with
  | nil => exact absurd rfl hne
  | cons c rest =>
    unfold shieldDigit
    dsimp only
    split
    · rw [isIdentifier, List.all_eq_true.2 h]
      rfl
    · rename_i hdigit
      rw [isIdentifier, List.all_eq_true.2 fun d hd => h d (List.mem_cons_of_mem _ hd), Bool.and_true]
      have hc := h c List.mem_cons_self
      rw [isIdentifierChar, Char.isAlphanum, Bool.eq_false_iff.2 hdigit, Bool.or_false] at hc
      exact hc

/-- A number behind a name leaves it such a name. -/
theorem Proper.append_toString {name : String} (h : Proper name) (n : Nat) : Proper (name ++ toString n) := by
  obtain ⟨c, hc⟩ := List.exists_mem_of_ne_nil _ (Text.repr_toList_ne_nil n)
  have hdigit := Text.isDigit_of_mem_repr n c hc
  refine ⟨?_, unreserved_append hc ?_⟩
  · rw [String.toList_append]
    exact isIdentifier_append h.identifier (plain_toString n)
  · simp only [Char.isDigit, Bool.and_eq_true, decide_eq_true_eq] at hdigit
    refine Bool.eq_false_iff.2 fun hlower => ?_
    have hbounds : (decide (c.val ≥ 97) && decide (c.val ≤ 122)) = true := hlower
    exact absurd (UInt32.le_trans (of_decide_eq_true (Bool.and_eq_true_iff.1 hbounds).1) hdigit.2) (by decide)

/-- **A name made from text can name an argument.** -/
theorem proper_sanitize (raw : String) : Proper (sanitize raw) := by
  have hword : isIdentifier (String.ofList (shieldDigit (core raw.toList))).toList = true := by
    rw [String.toList_ofList]
    exact isIdentifier_shieldDigit (core_ne_nil raw.toList) (isIdentifierChar_of_mem_core raw.toList)
  unfold sanitize shieldReserved
  split
  · refine ⟨?_, unreserved_append (c := '_') (by decide) (by decide)⟩
    rw [String.toList_append]
    exact isIdentifier_append hword (show Plain "_" by decide)
  · rename_i hfree
    exact ⟨hword, fun h => hfree (List.contains_iff_mem.2 h)⟩

theorem isIdentifierChar_bound (c : Char) (h : isIdentifierChar c = true) : c.toNat < 128 := by
  have hranges : isIdentifierChar c = ((((decide (c.val ≥ 'A'.val ∧ c.val ≤ 'Z'.val) ||
      (decide (c.val ≥ 'a'.val) && decide (c.val ≤ 'z'.val))) ||
      (decide (c.val ≥ '0'.val) && decide (c.val ≤ '9'.val))) || c == '_') || c == '$') := rfl
  simp only [hranges, Bool.or_eq_true, Bool.and_eq_true, decide_eq_true_eq, beq_iff_eq, UInt32.le_iff_toNat_le,
    ge_iff_le] at h
  change ((((65 ≤ c.toNat ∧ c.toNat ≤ 90) ∨ (97 ≤ c.toNat ∧ c.toNat ≤ 122)) ∨ (48 ≤ c.toNat ∧ c.toNat ≤ 57)) ∨ c = '_') ∨
    c = '$' at h
  rcases h with (((h | h) | h) | rfl) | rfl
  · omega
  · omega
  · omega
  · decide
  · decide

/-- What holds of the ASCII characters of identifiers, which can be tried one after the other, holds of all of them. -/
theorem of_isIdentifierChar {p : Char → Prop} (hall : ∀ n : Fin 128, isIdentifierChar (Char.ofNat n) = true → p (Char.ofNat n))
    {c : Char} (h : isIdentifierChar c = true) : p c := by
  have hc := hall ⟨c.toNat, isIdentifierChar_bound c h⟩
  rw [Char.ofNat_toNat] at hc
  exact hc h

theorem plain_capitalize {name : String} (h : Plain name) : Plain (Text.capitalize name) := by
  unfold Text.capitalize
  cases hl : name.toList with
  | nil => exact fun _ hc => nomatch hc
  | cons c rest =>
    have hc : isIdentifierChar c = true := h c (by rw [hl]; exact List.mem_cons_self)
    have hup : Text.upperChar c = [c.toUpper] := if_pos (isIdentifierChar_bound c hc)
    intro d hd
    rw [String.toList_ofList, hup] at hd
    rcases List.mem_cons.1 hd with rfl | hd
    · exact of_isIdentifierChar (p := fun c => isIdentifierChar c.toUpper = true) (by decide) hc
    · exact h d (by rw [hl]; exact List.mem_cons_of_mem _ hd)

theorem Plain.join {names : List String} (h : ∀ name ∈ names, Plain name) : Plain (String.join names) := by
  intro c hc
  rw [String.toList_join, List.mem_flatMap] at hc
  obtain ⟨name, hname, hc⟩ := hc
  exact h name hname c hc

theorem plain_of_mem_words {text word : String} (h : word ∈ words text) : Plain word := by
  unfold words at h
  obtain ⟨part, hpart, rfl⟩ := List.mem_map.1 h
  intro c hc
  rw [String.toList_ofList] at hc
  have := (Text.mem_of_mem_splitBy (List.mem_filter.1 hpart).1 c hc).2
  rw [Bool.not_eq_false'] at this
  rw [isIdentifierChar, this]
  rfl

theorem plain_statusLabel (code : String) : Plain (statusLabel code) := by
  unfold statusLabel
  split
  · rename_i label h
    have hlabels : ∀ entry ∈ statusLabels, Plain entry.2 := by decide
    obtain ⟨before, behind, hl, -⟩ := List.lookup_eq_some_iff.1 h
    exact hlabels _ (hl ▸ List.mem_append_right before List.mem_cons_self)
  · exact Plain.append (by decide) (Plain.join fun _ => plain_of_mem_words)

theorem plain_mediaLabel (mediaType : String) : Plain (mediaLabel mediaType) := by
  unfold mediaLabel
  dsimp only
  split
  · decide
  · exact plain_sanitize _

end Naming

theorem Operation.Spec.plain_name (spec : Operation.Spec) : Naming.Plain spec.name := by
  unfold Operation.Spec.name
  split
  · exact Naming.plain_sanitize _
  · exact Naming.plain_sanitize _

/-- A character that cannot stand inside a word stands in no word. -/
theorem Text.not_mem_of_isWord {name : String} {c : Char} (hc : isWordInner c = false) (h : isWord name = true) :
    c ∉ name.toList := by
  unfold isWord at h
  intro hmem
  cases hl : name.toList with
  | nil =>
    rw [hl] at hmem
    cases hmem
  | cons d rest =>
    rw [hl] at h hmem
    rw [Bool.and_eq_true, List.all_eq_true] at h
    rcases List.mem_cons.1 hmem with rfl | hrest
    · rw [isWordInner, h.1, Bool.true_or] at hc
      cases hc
    · rw [h.2 c hrest] at hc
      cases hc

theorem Text.dotless_of_isWord {name : String} (h : isWord name = true) : Dotless name :=
  not_mem_of_isWord (by decide +kernel) h

/-! ## Names of classes -/

theorem Grouped.mem_add {α : Type} {k key : String} {values : List α} {value : α} : ∀ {groups : Grouped α},
    (k, values) ∈ groups.add key value → k = key ∨ ∃ values', (k, values') ∈ groups
  | [], h => by
    cases List.mem_singleton.1 h
    exact .inl rfl
  | (k', values') :: rest, h => by
    unfold Grouped.add at h
    split at h
    · rcases List.mem_cons.1 h with heq | h
      · cases heq
        exact .inr ⟨values', List.mem_cons_self⟩
      · exact .inr ⟨values, List.mem_cons_of_mem _ h⟩
    · rcases List.mem_cons.1 h with heq | h
      · cases heq
        exact .inr ⟨values, List.mem_cons_self⟩
      · exact (Grouped.mem_add h).imp_right fun ⟨values', hmem⟩ => ⟨values', List.mem_cons_of_mem _ hmem⟩

theorem Grouped.mem_foldl_add {α : Type} {k : String} {values : List α} : ∀ {pairs : List (String × α)} {groups : Grouped α},
    (k, values) ∈ pairs.foldl (fun acc (key, value) => acc.add key value) groups →
      (∃ values', (k, values') ∈ groups) ∨ ∃ value, (k, value) ∈ pairs
  | [], _, h => .inl ⟨values, h⟩
  | (key, value) :: rest, groups, h => by
    rw [List.foldl_cons] at h
    rcases Grouped.mem_foldl_add h with ⟨values', hmem⟩ | ⟨value', hmem⟩
    · rcases Grouped.mem_add hmem with rfl | hold
      · exact .inr ⟨value, List.mem_cons_self⟩
      · exact .inl hold
    · exact .inr ⟨value', List.mem_cons_of_mem _ hmem⟩

theorem Grouped.mem_ofList {α : Type} {k : String} {values : List α} {pairs : List (String × α)}
    (h : (k, values) ∈ Grouped.ofList pairs) : ∃ value, (k, value) ∈ pairs := by
  rcases Grouped.mem_foldl_add h with ⟨_, hmem⟩ | hvalue
  · cases hmem
  · exact hvalue

/-- The definition of a tag names a class by a name made from text. -/
theorem Operation.className?_eq_sanitize {tag : Node} {name : String} : ∀ {definitions : List Node},
    Operation.className? tag definitions = some name → ∃ raw, name = Naming.sanitize raw
  | [], h => nomatch h
  | definition :: rest, h => by
    unfold Operation.className? at h
    split at h
    · split at h
      · rename_i raw _
        split at h
        · cases h
        · cases h
          exact ⟨raw, rfl⟩
      · cases h
    · exact Operation.className?_eq_sanitize h

/-- **What the default name has and every name made from text, the name of a class has.** -/
theorem Operation.apiName_of {operation : Node} {definitions : List Node} {default : String} {p : String → Prop}
    (hdefault : p default) (hmade : ∀ raw, p (Naming.sanitize raw)) : p (Operation.apiName operation definitions default) := by
  unfold Operation.apiName
  split
  · rename_i tags _
    cases hf : tags.findSome? fun tag => Operation.className? tag definitions with
    | none => exact hdefault
    | some name =>
      obtain ⟨tag, -, hname⟩ := List.exists_of_findSome?_eq_some hf
      obtain ⟨raw, rfl⟩ := Operation.className?_eq_sanitize hname
      exact hmade raw
  · exact hdefault

theorem Operation.group_names {document : Node} {default : String} {p : String → Prop} (hdefault : p default)
    (hmade : ∀ raw, p (Naming.sanitize raw)) : ∀ entry ∈ Operation.group document default, p entry.1 := by
  rintro ⟨name, specs⟩ hentry
  obtain ⟨spec, hspec⟩ := Grouped.mem_ofList hentry
  obtain ⟨spec', -, heq⟩ := List.mem_map.1 hspec
  cases heq
  exact apiName_of hdefault hmade

theorem Operation.dotless_group {document : Node} {default : String} (hdefault : Dotless default) :
    ∀ entry ∈ Operation.group document default, Dotless entry.1 :=
  group_names hdefault fun raw => (Naming.plain_sanitize raw).dotless

theorem Settings.dotless_readName {values : List (String × Node)} {name : String}
    (h : (Settings.withDefault values "default_api_name" "DefaultApi" Settings.readName).mapError ([·]) = .ok name) :
    Dotless name := by
  unfold Settings.withDefault at h
  split at h
  · cases h
    decide
  · rename_i value _
    unfold Settings.readName at h
    cases ht : Settings.readText value with
    | error e =>
      rw [ht] at h
      cases h
    | ok text =>
      rw [ht] at h
      dsimp only at h
      split at h
      · rename_i hword
        cases h
        exact Text.dotless_of_isWord hword
      · cases h

theorem Settings.dotless_defaultApiName {values : List (String × Node)} {settings : Settings}
    (h : Settings.ofValues values = .ok settings) : Dotless settings.defaultApiName := by
  unfold Settings.ofValues at h
  dsimp only at h
  split at h
  · obtain ⟨_, -, h⟩ := except_bind_eq_ok h
    obtain ⟨_, -, h⟩ := except_bind_eq_ok h
    obtain ⟨name, hname, h⟩ := except_bind_eq_ok h
    obtain ⟨_, -, h⟩ := except_bind_eq_ok h
    obtain ⟨_, -, h⟩ := except_bind_eq_ok h
    obtain ⟨_, -, h⟩ := except_bind_eq_ok h
    obtain ⟨_, -, h⟩ := except_bind_eq_ok h
    obtain ⟨_, -, h⟩ := except_bind_eq_ok h
    obtain ⟨_, -, h⟩ := except_bind_eq_ok h
    obtain ⟨_, -, h⟩ := except_bind_eq_ok h
    cases h
    exact dotless_readName hname
  · cases h

end TypedClient
