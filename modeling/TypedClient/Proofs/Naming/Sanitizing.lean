import TypedClient.Proofs.Linking.Names
/-!
# Sanitizing — which texts come to one identifier

A text is made into an identifier by joining its runs of foreign characters and trimming what stands for them at the ends: it
is all one which of the two comes first (`dropEnds_joinRuns`).  What shields digits and reserved words loses nothing, because a
trimmed text has no underscore at either end, so that two texts come to one identifier exactly if they come to one core
(`sanitize_eq_iff`).  A name of letters comes out of those texts only that have it between foreign characters
(`sanitize_eq_iff_bare`).
-/
namespace TypedClient
namespace Naming

variable {cs ds : List Char} {c : Char} {raw raw' word : String}

/-- Whether a character stands for nothing at the ends of a text: a foreign one, or an underscore. -/
def isFiller (c : Char) : Bool :=
  !isIdentifierChar c || c == '_'

/-! ## Joining runs -/

theorem joinRuns_keep (hc : isIdentifierChar c = true) (rest : List Char) : joinRuns (c :: rest) = c :: joinRuns rest := by
  rw [joinRuns.eq_def]
  exact if_pos hc

/-- A foreign character is dropped before another one, and becomes an underscore otherwise. -/
theorem joinRuns_foreign (hc : isIdentifierChar c = false) (rest : List Char) :
    (∃ d more, rest = d :: more ∧ isIdentifierChar d = false ∧ joinRuns (c :: rest) = joinRuns rest) ∨
    (∀ d ∈ rest.head?, isIdentifierChar d = true) ∧ joinRuns (c :: rest) = '_' :: joinRuns rest := by
  cases rest with
  | nil =>
    refine .inr ⟨nofun, ?_⟩
    rw [joinRuns.eq_def]
    exact if_neg (Bool.eq_false_iff.1 hc)
  | cons d more =>
    by_cases hd : isIdentifierChar d = true
    · refine .inr ⟨fun e he => Option.some.inj he ▸ hd, ?_⟩
      rw [joinRuns.eq_def]
      exact (if_neg (Bool.eq_false_iff.1 hc)).trans (if_pos hd)
    · refine .inl ⟨d, more, rfl, Bool.eq_false_iff.2 hd, ?_⟩
      rw [joinRuns.eq_def]
      exact (if_neg (Bool.eq_false_iff.1 hc)).trans (if_neg hd)

theorem joinRuns_of_identifier (h : ∀ c ∈ cs, isIdentifierChar c = true) : joinRuns cs = cs := by
  induction cs with
  | nil => rfl
  | cons c rest ih =>
    rw [joinRuns_keep (h c List.mem_cons_self), ih fun d hd => h d (List.mem_cons_of_mem c hd)]

/-- **Runs are joined apart** before and behind a character that stays. -/
theorem joinRuns_append_cons (hc : isIdentifierChar c = true) (before behind : List Char) :
    joinRuns (before ++ c :: behind) = joinRuns before ++ c :: joinRuns behind := by
  induction before with
  | nil => exact joinRuns_keep hc behind
  | cons d rest ih =>
    rw [List.cons_append]
    by_cases hd : isIdentifierChar d = true
    · rw [joinRuns_keep hd, joinRuns_keep hd, ih, List.cons_append]
    · rw [Bool.not_eq_true] at hd
      rcases joinRuns_foreign hd rest with ⟨e, more, rfl, he, hdrop⟩ | ⟨hhead, hjoin⟩
      · have hlonger := joinRuns_foreign hd (e :: more ++ c :: behind)
        rcases hlonger with ⟨_, _, -, -, heq⟩ | ⟨hhead, -⟩
        · rw [heq, hdrop, ih]
        · exact absurd (hhead e rfl) (Bool.eq_false_iff.1 he)
      · rcases joinRuns_foreign hd (rest ++ c :: behind) with ⟨e, more, heq, he, -⟩ | ⟨-, heq⟩
        · -- the character behind is one that stays, in the text or the one put in
          have hstays : isIdentifierChar e = true := by
            cases rest with
            | nil => exact (List.cons.inj heq).1 ▸ hc
            | cons f more' => exact (List.cons.inj heq).1 ▸ hhead f rfl
          exact absurd hstays (Bool.eq_false_iff.1 he)
        · rw [heq, hjoin, ih, List.cons_append]

/-- A foreign character leaves an underscore behind. -/
theorem underscore_mem_joinRuns (h : ∃ c ∈ cs, isIdentifierChar c = false) : '_' ∈ joinRuns cs := by
  induction cs with
  | nil => simp at h
  | cons d rest ih =>
    by_cases hd : isIdentifierChar d = true
    · obtain ⟨c, hmem, hc⟩ := h
      have hrest : c ∈ rest := (List.mem_cons.1 hmem).resolve_left fun heq => absurd hd (Bool.eq_false_iff.1 (heq ▸ hc))
      rw [joinRuns_keep hd]
      exact List.mem_cons_of_mem d (ih ⟨c, hrest, hc⟩)
    · rcases joinRuns_foreign (Bool.not_eq_true _ ▸ hd) rest with ⟨e, more, rfl, he, hdrop⟩ | ⟨-, hjoin⟩
      · rw [hdrop]
        exact ih ⟨e, List.mem_cons_self, he⟩
      · rw [hjoin]
        exact List.mem_cons_self

theorem mem_joinRuns (h : c ∈ joinRuns cs) : c ∈ cs ∨ c = '_' := by
  induction cs with
  | nil => cases h
  | cons d rest ih =>
    by_cases hd : isIdentifierChar d = true
    · rw [joinRuns_keep hd] at h
      rcases List.mem_cons.1 h with rfl | hrest
      · exact .inl List.mem_cons_self
      · exact (ih hrest).imp_left (List.mem_cons_of_mem d)
    · rcases joinRuns_foreign (Bool.not_eq_true _ ▸ hd) rest with ⟨e, more, rfl, he, hdrop⟩ | ⟨-, hjoin⟩
      · rw [hdrop] at h
        exact (ih h).imp_left (List.mem_cons_of_mem d)
      · rw [hjoin] at h
        rcases List.mem_cons.1 h with rfl | hrest
        · exact .inr rfl
        · exact (ih hrest).imp_left (List.mem_cons_of_mem d)

/-! ## Joining and trimming -/

theorem isFiller_eq_false : isFiller c = false ↔ isIdentifierChar c = true ∧ c ≠ '_' := by
  rw [isFiller, Bool.or_eq_false_iff, Bool.not_eq_false', beq_eq_false_iff_ne]

theorem dropWhile_joinRuns (cs : List Char) : (joinRuns cs).dropWhile (· == '_') = joinRuns (cs.dropWhile isFiller) := by
  induction cs with
  | nil => rfl
  | cons c rest ih =>
    by_cases hfiller : isFiller c = true
    · rw [List.dropWhile_cons_of_pos hfiller, ← ih]
      by_cases hc : isIdentifierChar c = true
      · have hunder : c = '_' := by
          rw [isFiller, hc] at hfiller
          exact beq_iff_eq.1 hfiller
        rw [joinRuns_keep hc, hunder, List.dropWhile_cons_of_pos (by decide)]
      · rcases joinRuns_foreign (Bool.not_eq_true _ ▸ hc) rest with ⟨_, _, -, -, hdrop⟩ | ⟨-, hjoin⟩
        · rw [hdrop]
        · rw [hjoin, List.dropWhile_cons_of_pos (by decide)]
    · obtain ⟨hc, hunder⟩ := isFiller_eq_false.1 (Bool.not_eq_true _ ▸ hfiller)
      rw [List.dropWhile_cons_of_neg hfiller, joinRuns_keep hc, List.dropWhile_cons_of_neg (by simpa using hunder)]

/-- What is trimmed stands for nothing. -/
theorem dropTail_joinRuns_fillers (h : ∀ c ∈ cs, isFiller c = true) : Text.dropTail (· == '_') (joinRuns cs) = [] := by
  rw [Text.dropTail_eq_rdropWhile, List.rdropWhile_eq_nil_iff]
  intro c hc
  rcases mem_joinRuns hc with hmem | rfl
  · have hfiller := h c hmem
    rw [isFiller, isIdentifierChar_of_mem_joinRuns cs c hc] at hfiller
    exact hfiller
  · rfl

theorem dropTail_joinRuns (cs : List Char) : Text.dropTail (· == '_') (joinRuns cs) = joinRuns (Text.dropTail isFiller cs) := by
  have hsplit : Text.dropTail isFiller cs ++ cs.rtakeWhile isFiller = cs := List.rdropWhile_append_rtakeWhile
  have hback : ∀ c ∈ cs.rtakeWhile isFiller, isFiller c = true := fun c hc => List.mem_rtakeWhile_imp hc
  generalize cs.rtakeWhile isFiller = back at hsplit hback
  rcases List.eq_nil_or_concat' (Text.dropTail isFiller cs) with hnil | ⟨kept, c, hkept⟩
  · rw [hnil, List.nil_append] at hsplit
    rw [hnil, ← hsplit]
    exact dropTail_joinRuns_fillers hback
  · obtain ⟨hc, hunder⟩ := isFiller_eq_false.1 (Text.getLast?_dropTail (c := c) (by rw [hkept, List.getLast?_concat]))
    rw [hkept, List.append_assoc, List.singleton_append] at hsplit
    rw [hkept, ← hsplit, joinRuns_append_cons hc, joinRuns_append_cons hc,
      Text.dropTail_append_cons (p := (· == '_')) (beq_eq_false_iff_ne.2 hunder), dropTail_joinRuns_fillers hback]
    rfl

/-- **It is all one whether a text is trimmed first, or its runs are joined.** -/
theorem dropEnds_joinRuns (cs : List Char) : Text.dropEnds (· == '_') (joinRuns cs) = joinRuns (Text.dropEnds isFiller cs) := by
  rw [Text.dropEnds, dropWhile_joinRuns, dropTail_joinRuns, Text.dropEnds]

/-! ## Cores -/

/-- The text without what stands for nothing at its ends. -/
def bare (raw : String) : String :=
  String.ofList (Text.dropEnds isFiller raw.toList)

theorem core_eq (cs : List Char) : core cs = if joinRuns (Text.dropEnds isFiller cs) = [] then "value".toList else
    joinRuns (Text.dropEnds isFiller cs) := by
  rw [core.eq_def, dropEnds_joinRuns]
  split
  · rename_i hnil
    rw [if_pos hnil]
    rfl
  · rename_i hne
    rw [if_neg hne]

theorem core_ends (cs : List Char) : (∀ c ∈ (core cs).head?, c ≠ '_') ∧ ∀ c ∈ (core cs).getLast?, c ≠ '_' := by
  rw [core.eq_def]
  split
  · exact ⟨fun c hc => Option.some.inj hc ▸ by decide, fun c hc => Option.some.inj hc ▸ by decide⟩
  · exact ⟨fun c hc => beq_eq_false_iff_ne.1 (Text.head?_dropEnds (p := (· == '_')) hc),
      fun c hc => beq_eq_false_iff_ne.1 (Text.getLast?_dropEnds (p := (· == '_')) hc)⟩

/-! ## Shielding -/

theorem shieldDigit_of_head? (h : ∀ d ∈ cs.head?, d.isDigit = false) : shieldDigit cs = cs := by
  cases cs with
  | nil => rfl
  | cons c rest => rw [shieldDigit, h c rfl, if_neg (by decide)]

theorem shieldReserved_of_not_mem (h : word ∉ reservedWords) : shieldReserved word = word :=
  if_neg fun hmem => h (List.contains_iff_mem.1 hmem)

theorem shieldDigit_inj (hcs : ∀ c ∈ cs.head?, c ≠ '_') (hds : ∀ c ∈ ds.head?, c ≠ '_') :
    shieldDigit cs = shieldDigit ds ↔ cs = ds := by
  refine ⟨fun h => ?_, congrArg shieldDigit⟩
  have hcases : ∀ es : List Char, shieldDigit es = es ∨ shieldDigit es = '_' :: es := by
    intro es
    cases es with
    | nil => exact .inl rfl
    | cons c rest => exact (ite_eq_or_eq _ _ _).symm
  rcases hcases cs with hcs' | hcs' <;> rcases hcases ds with hds' | hds' <;> rw [hcs', hds'] at h
  · exact h
  · exact absurd rfl (hcs '_' (by rw [h]; rfl))
  · exact absurd rfl (hds '_' (by rw [← h]; rfl))
  · exact (List.cons.inj h).2

theorem shieldReserved_inj (h : ∀ c ∈ raw.toList.getLast?, c ≠ '_') (hother : ∀ c ∈ raw'.toList.getLast?, c ≠ '_') :
    shieldReserved raw = shieldReserved raw' ↔ raw = raw' := by
  refine ⟨fun heq => ?_, congrArg shieldReserved⟩
  have hcases : ∀ text : String, shieldReserved text = text ∨ shieldReserved text = text ++ "_" :=
    fun text => (ite_eq_or_eq _ _ _).symm
  have hlast : ∀ text : String, '_' ∈ (text ++ "_").toList.getLast? := by
    intro text
    rw [String.toList_append, List.getLast?_append]
    rfl
  rcases hcases raw with hraw | hraw <;> rcases hcases raw' with hraw' | hraw' <;> rw [hraw, hraw'] at heq
  · exact heq
  · exact absurd rfl (h '_' (heq ▸ hlast raw'))
  · exact absurd rfl (hother '_' (heq ▸ hlast raw))
  · have hlists := congrArg String.toList heq
    rw [String.toList_append, String.toList_append, List.append_left_inj] at hlists
    exact String.toList_inj.1 hlists

/-- **Two texts come to one identifier exactly if they come to one core.** -/
theorem sanitize_eq_iff : sanitize raw = sanitize raw' ↔ core raw.toList = core raw'.toList := by
  have hlast : ∀ text : String, ∀ c ∈ (String.ofList (shieldDigit (core text.toList))).toList.getLast?, c ≠ '_' := by
    intro text c hc
    rw [String.toList_ofList] at hc
    have hends := core_ends text.toList
    cases hcore : core text.toList with
    | nil =>
      rw [hcore] at hc
      cases hc
    | cons d rest =>
      rw [hcore] at hc hends
      refine hends.2 c ?_
      rw [shieldDigit] at hc
      split at hc
      · rwa [List.getLast?_cons_cons] at hc
      · exact hc
  rw [sanitize, sanitize, shieldReserved_inj (hlast raw) (hlast raw'), ← String.toList_inj, String.toList_ofList,
    String.toList_ofList, shieldDigit_inj (core_ends _).1 (core_ends _).1]

/-! ## Names that come out as they are -/

/-- A name that nothing is shielded in: of characters that stay, without a digit in front, not reserved, and not the one that
is put in for nothing. -/
structure Standing (word : String) : Prop where
  nonempty : word ≠ ""
  letters : ∀ c ∈ word.toList, isFiller c = false
  leading : ∀ c ∈ word.toList.head?, c.isDigit = false
  unreserved : word ∉ reservedWords
  put : word ≠ "value"

-- character by character: the characters of the word, not all there are
instance (word : String) : Decidable (Standing word) :=
  let _ : Decidable (∀ c ∈ word.toList, isFiller c = false) := List.decidableBAll (isFiller · = false) word.toList
  let _ : Decidable (∀ c ∈ word.toList.head?, c.isDigit = false) := Option.decidableForallMem word.toList.head?
  decidable_of_iff (word ≠ "" ∧ (∀ c ∈ word.toList, isFiller c = false) ∧ (∀ c ∈ word.toList.head?, c.isDigit = false) ∧
    word ∉ reservedWords ∧ word ≠ "value") ⟨fun h => ⟨h.1, h.2.1, h.2.2.1, h.2.2.2.1, h.2.2.2.2⟩,
      fun h => ⟨h.nonempty, h.letters, h.leading, h.unreserved, h.put⟩⟩

theorem Standing.core_eq (h : Standing word) : core word.toList = word.toList := by
  have hidentifier : ∀ c ∈ word.toList, isIdentifierChar c = true := fun c hc => (isFiller_eq_false.1 (h.letters c hc)).1
  rw [Naming.core_eq, Text.dropEnds_of_none _ _ h.letters, joinRuns_of_identifier hidentifier,
    if_neg fun hnil => h.nonempty (String.toList_eq_nil_iff.1 hnil)]

theorem Standing.sanitize_eq (h : Standing word) : sanitize word = word := by
  rw [sanitize, h.core_eq, shieldDigit_of_head? h.leading, String.ofList_toList, shieldReserved_of_not_mem h.unreserved]

theorem Standing.sanitize_eq_iff_core (h : Standing word) : sanitize raw = word ↔ core raw.toList = word.toList := by
  have hiff : sanitize raw = sanitize word ↔ core raw.toList = core word.toList := sanitize_eq_iff
  rwa [h.sanitize_eq, h.core_eq] at hiff

/-- **A name comes out of the texts that have it between characters that stand for nothing**, and of no others. -/
theorem sanitize_eq_iff_bare (h : Standing word) : sanitize raw = word ↔ bare raw = word := by
  rw [h.sanitize_eq_iff_core, core_eq, bare]
  have hword : word.toList ≠ [] := fun hnil => h.nonempty (String.toList_eq_nil_iff.1 hnil)
  have hlist : String.ofList (Text.dropEnds isFiller raw.toList) = word ↔ Text.dropEnds isFiller raw.toList = word.toList := by
    rw [← String.toList_inj, String.toList_ofList]
  rw [hlist]
  generalize Text.dropEnds isFiller raw.toList = cs
  have hidentifier : ∀ c ∈ word.toList, isIdentifierChar c = true := fun c hc => (isFiller_eq_false.1 (h.letters c hc)).1
  constructor
  · intro heq
    split at heq
    · exact absurd (String.toList_inj.1 heq).symm h.put
    · -- no run was joined, for the name has no underscore
      have hplain : ∀ c ∈ cs, isIdentifierChar c = true := by
        intro c hc
        by_contra hforeign
        have hunder := underscore_mem_joinRuns ⟨c, hc, Bool.not_eq_true _ ▸ hforeign⟩
        rw [heq] at hunder
        exact absurd (h.letters _ hunder) (by decide)
      rwa [joinRuns_of_identifier hplain] at heq
  · rintro rfl
    rw [joinRuns_of_identifier hidentifier, if_neg hword]

/-- What ends with characters that stay has a core that ends with them. -/
theorem suffix_core (hne : ds ≠ []) (h : ∀ c ∈ ds, isFiller c = false) (cs : List Char) : ds <:+ core (cs ++ ds) := by
  have hjoined : joinRuns (cs ++ ds) = joinRuns cs ++ ds := by
    obtain ⟨d, rest, rfl⟩ := List.exists_cons_of_ne_nil hne
    rw [List.forall_mem_cons] at h
    rw [joinRuns_append_cons (isFiller_eq_false.1 h.1).1,
      joinRuns_of_identifier fun c hc => (isFiller_eq_false.1 (h.2 c hc)).1]
  have hunder : ∀ c ∈ ds, (c == '_') = false := fun c hc => beq_eq_false_iff_ne.2 (isFiller_eq_false.1 (h c hc)).2
  obtain ⟨before, hbefore⟩ : ∃ before, (joinRuns cs ++ ds).dropWhile (· == '_') = before ++ ds := by
    rw [List.dropWhile_append]
    split
    · refine ⟨[], ?_⟩
      obtain ⟨d, rest, rfl⟩ := List.exists_cons_of_ne_nil hne
      exact List.dropWhile_cons_of_neg (Bool.eq_false_iff.1 (hunder d List.mem_cons_self))
    · exact ⟨_, rfl⟩
  obtain ⟨front, last, rfl⟩ := (List.eq_nil_or_concat' ds).resolve_left hne
  have hkept : Text.dropEnds (· == '_') (joinRuns (cs ++ (front ++ [last]))) = before ++ (front ++ [last]) := by
    rw [hjoined, Text.dropEnds, hbefore, ← List.append_assoc,
      Text.dropTail_append_cons (p := (· == '_')) (hunder last (by simp))]
    rfl
  rw [core.eq_def, hkept]
  split
  · rename_i hnil
    exact absurd hnil (by simp)
  · exact List.suffix_append _ _

end Naming
end TypedClient
