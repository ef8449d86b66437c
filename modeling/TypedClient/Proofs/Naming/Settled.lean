import TypedClient.Proofs.Naming.Sanitizing
/-!
# Settled — what sanitizing leaves alone

The identifier for a text is its core, with an underscore before a digit or behind a reserved word (`Shielded`).  That underscore
is trimmed when the identifier is sanitized once more, and put back, so that sanitizing leaves alone whatever it has made
(`sanitize_sanitize`), and an identifier exactly if each of its outer underscores shields something (`sanitize_eq_self_iff`).
-/
namespace TypedClient
namespace Naming

variable {cs cs' ds front back : List Char} {raw word : String}

/-! ## Cores -/

/-- **What a core is**: characters that stay, without an underscore at either end. -/
structure Trimmed (cs : List Char) : Prop where
  nonempty : cs ≠ []
  letters : ∀ c ∈ cs, isIdentifierChar c = true
  leading : ∀ c ∈ cs.head?, c ≠ '_'
  ending : ∀ c ∈ cs.getLast?, c ≠ '_'

theorem trimmed_core (cs : List Char) : Trimmed (core cs) :=
  ⟨core_ne_nil cs, isIdentifierChar_of_mem_core cs, (core_ends cs).1, (core_ends cs).2⟩

/-- **Underscores around a core are trimmed.** -/
theorem Trimmed.core_padded (h : Trimmed cs) (hfront : ∀ c ∈ front, c = '_') (hback : ∀ c ∈ back, c = '_') :
    core (front ++ cs ++ back) = cs := by
  have hunder : isIdentifierChar '_' = true := by decide
  have hletters : ∀ c ∈ front ++ cs ++ back, isIdentifierChar c = true := by
    intro c hc
    rw [List.mem_append, List.mem_append] at hc
    rcases hc with (hc | hc) | hc
    · exact hfront c hc ▸ hunder
    · exact h.letters c hc
    · exact hback c hc ▸ hunder
  have hkept : Text.dropEnds (· == '_') (front ++ cs ++ back) = cs :=
    Text.dropEnds_padded (fun c hc => beq_iff_eq.2 (hfront c hc)) (fun c hc => beq_iff_eq.2 (hback c hc)) h.nonempty
      (fun c hc => beq_eq_false_iff_ne.2 (h.leading c hc)) fun c hc => beq_eq_false_iff_ne.2 (h.ending c hc)
  rw [core.eq_def, joinRuns_of_identifier hletters, hkept]
  split
  · exact absurd rfl h.nonempty
  · rfl

/-! ## What is put around a core -/

/-- **A core, and the characters of its identifier.** -/
inductive Shielded : List Char → List Char → Prop where
  | digit {d : Char} {rest : List Char} (hd : d.isDigit = true) : Shielded (d :: rest) ('_' :: d :: rest)
  | reserved {word : String} (hword : word ∈ reservedWords) : Shielded word.toList (word.toList ++ ['_'])
  | plain {cs : List Char} (hdigit : ∀ d ∈ cs.head?, d.isDigit = false) (hword : String.ofList cs ∉ reservedWords) :
    Shielded cs cs

/-- Reserved words start and end with letters. -/
theorem ends_of_reserved (h : word ∈ reservedWords) :
    (∀ c ∈ word.toList.head?, c.isDigit = false ∧ c ≠ '_') ∧ ∀ c ∈ word.toList.getLast?, c ≠ '_' := by
  have hall : ∀ word ∈ reservedWords, (word.toList.head?.any fun c => c.isDigit || c == '_') = false ∧
      (word.toList.getLast?.any (· == '_')) = false := by decide
  obtain ⟨hhead, hlast⟩ := hall word h
  refine ⟨fun c hc => ?_, fun c hc => ?_⟩
  · rw [Option.mem_def.1 hc, Option.any_some, Bool.or_eq_false_iff, beq_eq_false_iff_ne] at hhead
    exact hhead
  · rw [Option.mem_def.1 hc, Option.any_some, beq_eq_false_iff_ne] at hlast
    exact hlast

theorem trimmed_of_reserved (h : word ∈ reservedWords) : Trimmed word.toList := by
  have hall : ∀ word ∈ reservedWords, word.toList ≠ [] ∧ word.toList.all isIdentifierChar = true := by decide
  exact ⟨(hall word h).1, List.all_eq_true.1 (hall word h).2, fun c hc => ((ends_of_reserved h).1 c hc).2,
    (ends_of_reserved h).2⟩

theorem exists_shielded (cs : List Char) : ∃ ds, Shielded cs ds := by
  by_cases hdigit : ∃ d ∈ cs.head?, d.isDigit = true
  · obtain ⟨d, hd, hdigit⟩ := hdigit
    obtain ⟨rest, rfl⟩ := List.head?_eq_some_iff.1 hd
    exact ⟨_, .digit hdigit⟩
  · by_cases hword : String.ofList cs ∈ reservedWords
    · have hreserved := Shielded.reserved hword
      rw [String.toList_ofList] at hreserved
      exact ⟨_, hreserved⟩
    · exact ⟨cs, .plain (fun d hd => Bool.eq_false_iff.2 fun h => hdigit ⟨d, hd, h⟩) hword⟩

/-- **A text comes to its core as it is shielded.** -/
theorem Shielded.toList_sanitize (h : Shielded cs ds) (hcore : core raw.toList = cs) : (sanitize raw).toList = ds := by
  rw [sanitize, hcore]
  cases h with
  | @digit d rest hd =>
    -- with the underscore in front it is no reserved word, so that nothing is put behind it
    have hfree : String.ofList ('_' :: d :: rest) ∉ reservedWords := by
      intro hmem
      have hhead := (ends_of_reserved hmem).1
      rw [String.toList_ofList] at hhead
      exact (hhead '_' rfl).2 rfl
    rw [shieldDigit, if_pos hd, shieldReserved_of_not_mem hfree, String.toList_ofList]
  | reserved hword =>
    rw [shieldDigit_of_head? fun d hd => ((ends_of_reserved hword).1 d hd).1, String.ofList_toList, shieldReserved,
      if_pos (List.contains_iff_mem.2 hword), String.toList_append]
    rfl
  | plain hdigit hword =>
    rw [shieldDigit_of_head? hdigit, shieldReserved_of_not_mem hword, String.toList_ofList]

theorem shielded_sanitize (raw : String) : Shielded (core raw.toList) (sanitize raw).toList := by
  obtain ⟨ds, h⟩ := exists_shielded (core raw.toList)
  rwa [h.toList_sanitize rfl]

theorem Shielded.core_eq (h : Shielded cs ds) (hcs : Trimmed cs) : core ds = cs := by
  have hnone : ∀ c ∈ ([] : List Char), c = '_' := nofun
  have hone : ∀ c ∈ ['_'], c = '_' := fun c hc => List.mem_singleton.1 hc
  cases h with
  | digit _ =>
    have hpadded := hcs.core_padded hone hnone
    rwa [List.append_nil] at hpadded
  | reserved _ =>
    have hpadded := hcs.core_padded hnone hone
    rwa [List.nil_append] at hpadded
  | plain _ _ =>
    have hpadded := hcs.core_padded hnone hnone
    rwa [List.append_nil] at hpadded

/-- **Sanitizing leaves alone what it has made.** -/
theorem sanitize_sanitize (raw : String) : sanitize (sanitize raw) = sanitize raw :=
  sanitize_eq_iff.2 ((shielded_sanitize raw).core_eq (trimmed_core raw.toList))

/-! ## What is left alone -/

/-- **An identifier whose outer underscores shield something**: one at the end is behind a reserved word, one at the start before
a digit. -/
structure Settled (word : String) : Prop extends Proper word where
  ending : '_' ∈ word.toList.getLast? → ∃ reserved ∈ reservedWords, word = reserved ++ "_"
  leading : ∀ rest, word.toList = '_' :: rest → ∃ d ∈ rest.head?, d.isDigit = true

theorem Shielded.ending (h : Shielded cs ds) (hcs : Trimmed cs) (hlast : '_' ∈ ds.getLast?) :
    ∃ word ∈ reservedWords, ds = word.toList ++ ['_'] := by
  cases h with
  | digit _ =>
    rw [List.getLast?_cons_cons] at hlast
    exact absurd rfl (hcs.ending '_' hlast)
  | reserved hword => exact ⟨_, hword, rfl⟩
  | plain _ _ => exact absurd rfl (hcs.ending '_' hlast)

theorem Shielded.leading (h : Shielded cs ('_' :: cs')) (hcs : Trimmed cs) : ∃ d ∈ cs'.head?, d.isDigit = true := by
  generalize hds : '_' :: cs' = ds at h
  cases h with
  | digit hd => exact ⟨_, (List.cons.inj hds).2 ▸ rfl, hd⟩
  | @reserved word hword =>
    have hhead : '_' ∈ (word.toList ++ ['_']).head? := hds ▸ rfl
    rw [List.head?_append_of_ne_nil _ hcs.nonempty] at hhead
    exact absurd rfl (hcs.leading '_' hhead)
  | plain _ _ => exact absurd rfl (hcs.leading '_' (hds ▸ rfl))

theorem Shielded.settled (h : Shielded cs word.toList) (hcs : Trimmed cs) (hproper : Proper word) : Settled word := by
  refine ⟨hproper, fun hlast => ?_, fun rest hrest => ?_⟩
  · obtain ⟨reserved, hreserved, heq⟩ := h.ending hcs hlast
    refine ⟨reserved, hreserved, String.toList_inj.1 ?_⟩
    rw [heq, String.toList_append]
    rfl
  · rw [hrest] at h
    exact h.leading hcs

theorem not_isDigit_of_isIdentifier (h : isIdentifier cs = true) : ∀ c ∈ cs.head?, c.isDigit = false := by
  intro c hc
  obtain ⟨rest, rfl⟩ := List.head?_eq_some_iff.1 hc
  rw [isIdentifier, Bool.and_eq_true] at h
  exact of_isIdentifierChar (p := fun c => isIdentifierStart c = true → c.isDigit = false) (by decide)
    (isIdentifierChar_of_start h.1) h.1

/-- A settled name is a core with its shield. -/
theorem Settled.shielded (h : Settled word) : ∃ cs, Trimmed cs ∧ Shielded cs word.toList := by
  by_cases hending : '_' ∈ word.toList.getLast?
  · obtain ⟨reserved, hreserved, rfl⟩ := h.ending hending
    refine ⟨reserved.toList, trimmed_of_reserved hreserved, ?_⟩
    rw [String.toList_append]
    exact .reserved hreserved
  have hlast : ∀ c ∈ word.toList.getLast?, c ≠ '_' := fun c hc heq => hending (heq ▸ hc)
  have hdigit := not_isDigit_of_isIdentifier h.identifier
  have hplain : Shielded word.toList word.toList := .plain hdigit (by rw [String.ofList_toList]; exact h.unreserved)
  have hletters : ∀ c ∈ word.toList, isIdentifierChar c = true := h.toProper.plain
  have hleading := h.leading
  cases hword : word.toList with
  | nil =>
    have hidentifier := h.identifier
    rw [hword] at hidentifier
    cases hidentifier
  | cons c rest =>
    rw [hword] at hlast hplain hletters hleading
    by_cases hc : c = '_'
    · -- the underscore in front is no part of the core
      subst hc
      obtain ⟨d, hd, hdigit⟩ := hleading rest rfl
      obtain ⟨more, rfl⟩ := List.head?_eq_some_iff.1 hd
      refine ⟨d :: more, ⟨List.cons_ne_nil _ _, fun e he => hletters e (List.mem_cons_of_mem _ he), ?_, ?_⟩, .digit hdigit⟩
      · intro e he heq
        rw [Option.mem_def, List.head?_cons, heq, Option.some.injEq] at he
        rw [he] at hdigit
        cases hdigit
      · rwa [List.getLast?_cons_cons] at hlast
    · refine ⟨c :: rest, ⟨List.cons_ne_nil _ _, hletters, ?_, hlast⟩, hplain⟩
      intro e he
      rwa [← Option.some.inj he]

/-- **A text is left alone exactly if it is settled.** -/
theorem sanitize_eq_self_iff : sanitize raw = raw ↔ Settled raw := by
  constructor
  · intro h
    have hshielded := shielded_sanitize raw
    have hproper := proper_sanitize raw
    rw [h] at hshielded hproper
    exact hshielded.settled (trimmed_core raw.toList) hproper
  · intro h
    obtain ⟨cs, hcs, hshielded⟩ := h.shielded
    exact String.toList_inj.1 (hshielded.toList_sanitize (hshielded.core_eq hcs))

/-! ## Names made from text -/

/-- **Sanitizing projects texts onto identifiers**: its results are identifiers that it leaves alone, and a text is left alone
exactly if it is settled.  So the names of types and of methods are identifiers whatever they are made from, and so is the name
of every class that is not the default one. -/
theorem sanitize_projects (raw : String) :
    isIdentifier (sanitize raw).toList = true ∧ sanitize (sanitize raw) = sanitize raw ∧ (sanitize raw = raw ↔ Settled raw) ∧
    isIdentifier (typeName raw).toList = true ∧ (∀ verb, isIdentifier (methodName raw verb).toList = true) ∧
    ∀ document default, ∀ group ∈ Operation.group document default,
      group.1 = default ∨ isIdentifier group.1.toList = true := by
  have hidentifier : ∀ text, isIdentifier (sanitize text).toList = true := fun text => (proper_sanitize text).identifier
  refine ⟨hidentifier raw, sanitize_sanitize raw, sanitize_eq_self_iff, hidentifier _, fun verb => hidentifier _, ?_⟩
  intro document default
  exact Operation.group_names (p := fun name => name = default ∨ isIdentifier name.toList = true) (.inl rfl)
    fun text => .inr (hidentifier text)

/-- A document whose only class is named by a text that begins with a digit. -/
def turnstile : Node :=
  .map (some "#") [("tags", .list none [.map none [("name", .str "gates"), ("x-codegen-class", .str "2nd gate")]]),
    ("paths", .map none [("/turn", .map none [("post", .map none [("tags", .list none [.str "gates"])])])])]

theorem turnstile_projects : sanitize "2nd gate" = "_2nd_gate" ∧ Settled "_2nd_gate" ∧
    (Operation.group turnstile "DefaultApi").map Prod.fst = ["_2nd_gate"] ∧ isIdentifier "_2nd_gate".toList = true := by
  have hgroup : ("_2nd_gate", Operation.collect turnstile) ∈ Operation.group turnstile "DefaultApi" := by decide +kernel
  have hprojects := sanitize_projects "_2nd_gate"
  refine ⟨by decide +kernel, hprojects.2.2.1.1 (by decide +kernel), by decide +kernel, ?_⟩
  have hother : "_2nd_gate" ≠ "DefaultApi" := by decide
  exact (hprojects.2.2.2.2.2 turnstile "DefaultApi" _ hgroup).resolve_left hother

end Naming
end TypedClient
