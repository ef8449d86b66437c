import Mathlib.Data.List.Chain
import TypedClient.Emit.Comment
import TypedClient.Proofs.Lists
import TypedClient.Proofs.Replacing
import TypedClient.Proofs.Trimming
/-!
# Comments — no text ends its block before its end

A block of documentation is closed by the first `*/` in it.  No `*` stands before a `/` in a text whose marks are broken
(`unclosed_breakMarks`), and neither trimming nor the cutting into lines brings the two together, because what they keep of the
text was in one piece before (`infix_of_mem_lines`).  So a block has one closing mark, at its end, and a line of its own for each
line of the text (`comment_closed`).
-/
namespace TypedClient

namespace Text

variable {cs line : List Char}

/-- The characters of a line end no line. -/
theorem isLineEnd_of_mem_lines (hline : line ∈ lines cs) : ∀ c ∈ line, isLineEnd c = false := by
  fun_induction lines cs generalizing line with
  | case1 => cases hline
  | case2 rest ih =>
    rcases List.mem_cons.1 hline with rfl | hmore
    · exact nofun
    · exact ih hmore
  | case3 c rest _ hend ih =>
    rcases List.mem_cons.1 hline with rfl | hmore
    · exact nofun
    · exact ih hmore
  | case4 c rest _ hend hrest ih =>
    cases List.mem_singleton.1 hline
    exact List.forall_mem_singleton.2 (Bool.not_eq_true _ ▸ hend)
  | case5 c rest _ hend first more hrest ih =>
    rw [hrest] at ih
    rcases List.mem_cons.1 hline with rfl | hmore
    · exact List.forall_mem_cons.2 ⟨Bool.not_eq_true _ ▸ hend, ih List.mem_cons_self⟩
    · exact ih (List.mem_cons_of_mem _ hmore)

/-- **A line was in one piece in the text**; the first one began it. -/
theorem infix_of_mem_lines : (∀ line more, lines cs = line :: more → line <+: cs) ∧ ∀ line ∈ lines cs, line <:+: cs := by
  fun_induction lines cs with
  | case1 => exact ⟨nofun, nofun⟩
  | case2 rest ih =>
    refine ⟨fun line more h => (List.cons.inj h).1 ▸ List.nil_prefix, List.forall_mem_cons.2 ⟨List.nil_infix, ?_⟩⟩
    exact fun line hline => (ih.2 line hline).trans (List.suffix_append ['\r', '\n'] rest).isInfix
  | case3 c rest _ hend ih =>
    refine ⟨fun line more h => (List.cons.inj h).1 ▸ List.nil_prefix, List.forall_mem_cons.2 ⟨List.nil_infix, ?_⟩⟩
    exact fun line hline => (ih.2 line hline).trans (List.suffix_cons c rest).isInfix
  | case4 c rest _ hend hrest ih =>
    have hfirst : [c] <+: c :: rest := List.prefix_append [c] rest
    exact ⟨fun line more h => (List.cons.inj h).1 ▸ hfirst, List.forall_mem_singleton.2 hfirst.isInfix⟩
  | case5 c rest _ hend first more hrest ih =>
    have hfirst : c :: first <+: c :: rest := List.cons_prefix_cons.2 ⟨rfl, ih.1 first more hrest⟩
    refine ⟨fun line more h => (List.cons.inj h).1 ▸ hfirst, List.forall_mem_cons.2 ⟨hfirst.isInfix, fun line hline => ?_⟩⟩
    exact (ih.2 line (hrest ▸ List.mem_cons_of_mem _ hline)).trans (List.suffix_cons c rest).isInfix

end Text

namespace Emit

variable {cs ds : List Char}

/-- **Whether a text holds no closing mark**: no `*` in it stands before a `/`. -/
def Unclosed (cs : List Char) : Prop := cs.IsChain fun c d => ¬ (c = '*' ∧ d = '/')

instance (cs : List Char) : Decidable (Unclosed cs) := inferInstanceAs (Decidable (cs.IsChain _))

theorem Unclosed.not_infix (h : Unclosed cs) : ¬ ['*', '/'] <:+: cs := by
  intro hin
  exact (List.isChain_cons_cons.1 ( List.IsChain.infix h hin)).1 ⟨rfl, rfl⟩

/-- Two texts without closing marks make none together unless the one ends and the other begins with half of it. -/
theorem Unclosed.append (h : Unclosed cs) (h' : Unclosed ds) (hne : cs.getLast? ≠ some '*' ∨ ds.head? ≠ some '/') :
    Unclosed (cs ++ ds) :=
  List.IsChain.append h h' fun _ hc _ hd heq => hne.elim (fun hcs => hcs (heq.1 ▸ hc)) fun hds => hds (heq.2 ▸ hd)

theorem unclosed_of_not_mem (h : '*' ∉ cs) : Unclosed cs :=
  List.isChain_iff_forall_rel_of_append_cons_cons.2 fun _ _ before _ heq hcd =>
    h (heq ▸ List.mem_append_right before (hcd.1 ▸ List.mem_cons_self))

/-- A closing mark is broken by a backslash in it. -/
theorem breakMarks_eq : ∀ cs : List Char, breakMarks cs = Text.replacePair '*' '/' ['*', '\\', '/'] cs
  | [] => rfl
  | [c] => by
    rw [breakMarks, breakMarks, Text.replacePair]
    all_goals simp
  | c :: d :: rest => by
    by_cases hpair : c = '*' ∧ d = '/'
    · obtain ⟨rfl, rfl⟩ := hpair
      rw [breakMarks, Text.replacePair_pair, breakMarks_eq rest]
      rfl
    · rw [Text.replacePair_cons (by simpa using hpair), ← breakMarks_eq (d :: rest), breakMarks]
      rintro rest' rfl heq
      exact hpair ⟨rfl, (List.cons.inj heq).1⟩

/-- **No closing mark is left** when all are broken. -/
theorem unclosed_breakMarks (cs : List Char) : Unclosed (breakMarks cs) := by
  fun_induction breakMarks cs with
  | case1 rest ih =>
    have hmark : Unclosed ['*', '\\', '/'] := by decide
    exact hmark.append ih (.inl (by decide))
  | case2 c rest hpair ih =>
    refine List.isChain_cons.2 ⟨fun d hd hcd => ?_, ih⟩
    obtain ⟨rfl, rfl⟩ := hcd
    -- what comes first behind a star is not a slash, for a broken mark begins with a star
    rw [breakMarks_eq] at hd
    rcases Text.head?_replacePair hd (List.cons_ne_nil _ _) with hslash | hstar
    · obtain ⟨rest', rfl⟩ := List.head?_eq_some_iff.1 hslash
      exact hpair rest' rfl rfl
    · cases hstar
  | case3 => exact .nil

/-! ## The lines of a block -/

variable {margin line : List Char}

/-- Every line of a block begins with the margin and a star. -/
theorem commentLine_eq (margin line : List Char) :
    commentLine margin line = margin ++ ' ' :: '*' :: Text.dropTail Text.isBlank (' ' :: line) := by
  have hstar : margin ++ ' ' :: '*' :: ' ' :: line = (margin ++ [' ']) ++ '*' :: ' ' :: line := by simp
  rw [commentLine, hstar, Text.dropTail_append_cons (by decide), List.append_assoc]
  rfl

/-- **How a line of a text is shown in a block**: behind the margin and a star, on one line, without white space at its end. -/
structure Shows (margin line shown : List Char) : Prop where
  starred : margin ++ " *".toList <+: shown
  single : ∀ c ∈ shown, Text.isLineEnd c = false
  rest : ∃ blanks, (∀ c ∈ blanks, Text.isBlank c = true) ∧ margin ++ " * ".toList ++ line = shown ++ blanks

theorem shows_commentLine (hmargin : ∀ c ∈ margin, c = ' ') (hline : ∀ c ∈ line, Text.isLineEnd c = false) :
    Shows margin line (commentLine margin line) where
  starred := by
    rw [commentLine_eq]
    exact ⟨Text.dropTail Text.isBlank (' ' :: line), List.append_assoc ..⟩
  single c hc := by
    have hmem : c ∈ margin ++ ' ' :: '*' :: ' ' :: line := (List.rdropWhile_prefix Text.isBlank _).subset hc
    simp only [List.mem_append, List.mem_cons] at hmem
    rcases hmem with hm | rfl | rfl | rfl | hm
    · rw [hmargin c hm]
      decide
    · decide
    · decide
    · decide
    · exact hline c hm
  rest := by
    refine ⟨(margin ++ ' ' :: '*' :: ' ' :: line).rtakeWhile Text.isBlank, fun c hc => List.mem_rtakeWhile_imp hc, ?_⟩
    rw [commentLine, Text.dropTail_eq_rdropWhile, List.rdropWhile_append_rtakeWhile]
    exact List.append_assoc ..

theorem unclosed_commentLine (hmargin : ∀ c ∈ margin, c = ' ') (h : Unclosed line) : Unclosed (commentLine margin line) := by
  have hstarless : '*' ∉ margin := fun hm => absurd (hmargin _ hm) (by decide)
  have hline : Unclosed (" * ".toList ++ line) := Unclosed.append (by decide) h (.inl (by decide))
  have hwhole := (unclosed_of_not_mem hstarless).append hline (.inr nofun)
  exact List.IsChain.prefix hwhole (List.rdropWhile_prefix Text.isBlank _)

/-- Whatever stands in a block was in one piece in the text with its marks broken. -/
theorem infix_of_mem_commentLines {text : String} (h : line ∈ commentLines text) : line <:+: breakMarks text.toList := by
  unfold commentLines at h
  split at h
  · cases List.mem_singleton.1 h
    exact List.nil_infix
  · exact (Text.infix_of_mem_lines.2 line h).trans (Text.infix_dropEnds _ _)

theorem isLineEnd_of_mem_commentLines {text : String} (h : line ∈ commentLines text) : ∀ c ∈ line, Text.isLineEnd c = false := by
  unfold commentLines at h
  split at h
  · cases List.mem_singleton.1 h
    exact nofun
  · exact Text.isLineEnd_of_mem_lines h

theorem length_commentLines (text : String) : (commentLines text).length =
    max 1 (Text.lines (Text.dropEnds Text.isBlank (breakMarks text.toList))).length := by
  unfold commentLines
  split
  · rename_i hnone
    rw [hnone]
    rfl
  · rename_i hsome
    exact (max_eq_right (Nat.one_le_iff_ne_zero.2 fun hzero => hsome (List.length_eq_zero_iff.1 hzero))).symm

/-! ## Whole blocks -/

theorem unclosed_intercalate : ∀ {pieces : List (List Char)}, (∀ piece ∈ pieces, Unclosed piece) →
    Unclosed (['\n'].intercalate pieces)
  | [], _ => .nil
  | [piece], h => by
    rw [List.intercalate_singleton]
    exact h piece List.mem_cons_self
  | piece :: next :: rest, h => by
    rw [List.intercalate_cons_cons, List.append_assoc]
    have hrest := unclosed_intercalate fun other hother => h other (List.mem_cons_of_mem _ hother)
    have hbreak : Unclosed (['\n'] ++ ['\n'].intercalate (next :: rest)) := Unclosed.append (by decide) hrest (.inl (by decide))
    exact (h piece List.mem_cons_self).append hbreak (.inr (by simp))

/-- The lines of a block: the opening one, those for the text, the closing one. -/
def blockLines (margin : List Char) (text : String) : List (List Char) :=
  (margin ++ "/**".toList) :: ((commentLines text).map (commentLine margin) ++ [margin ++ " */".toList])

theorem toList_comment (text : String) (indent : Nat) :
    (comment text indent).toList = ['\n'].intercalate (blockLines (List.replicate indent ' ') text) := by
  have hne : commentLines text ≠ [] := by
    intro hnil
    have hlength := length_commentLines text
    rw [hnil, List.length_nil] at hlength
    omega
  generalize hmargin : List.replicate indent ' ' = margin
  have hjoined : comment text indent = "\n".intercalate ((blockLines margin text).map String.ofList) := by
    unfold comment blockLines
    rw [List.map_cons, List.map_append, List.map_map, List.map_singleton, String.intercalate_cons_of_ne_nil (by simp),
      String.intercalate_append_of_ne_nil (by simpa using hne) (List.cons_ne_nil _ _), String.intercalate_singleton]
    simp [hmargin, String.append_assoc, Function.comp_def]
  rw [hjoined, String.toList_intercalate, List.map_map]
  exact congrArg _ ((List.map_congr_left fun _ _ => String.toList_ofList).trans (List.map_id _))

/-- Up to its last star, a block holds no closing mark. -/
theorem unclosed_untilSlash (hmargin : ∀ c ∈ margin, c = ' ') (text : String) :
    Unclosed (['\n'].intercalate ((margin ++ "/**".toList) ::
      ((commentLines text).map (commentLine margin) ++ [margin ++ " *".toList]))) := by
  have hstarless : Unclosed margin := unclosed_of_not_mem fun hm => absurd (hmargin _ hm) (by decide)
  have hopen : Unclosed (margin ++ "/**".toList) := by
    refine hstarless.append (by decide) (.inl fun hlast => ?_)
    exact absurd (hmargin _ (List.mem_of_getLast? hlast)) (by decide)
  have hclose : Unclosed (margin ++ " *".toList) := hstarless.append (by decide) (.inr (by decide))
  refine unclosed_intercalate fun piece hpiece => ?_
  rw [List.mem_cons, List.mem_append, List.mem_singleton, List.mem_map] at hpiece
  rcases hpiece with rfl | ⟨line, hline, rfl⟩ | rfl
  · exact hopen
  · exact unclosed_commentLine hmargin ( List.IsChain.infix (unclosed_breakMarks _) (infix_of_mem_commentLines hline))
  · exact hclose

/-- **A block of documentation** consists of an opening line, one line for each line of the text, at least one, and a closing
line; and it holds one closing mark, at its end. -/
theorem comment_closed (text : String) (indent : Nat) :
    (∃ shown, (comment text indent).toList = ['\n'].intercalate ((List.replicate indent ' ' ++ "/**".toList) ::
        (shown ++ [List.replicate indent ' ' ++ " */".toList])) ∧
      shown.length = max 1 (Text.lines (Text.dropEnds Text.isBlank (breakMarks text.toList))).length ∧
      List.Forall₂ (Shows (List.replicate indent ' ')) (commentLines text) shown) ∧
    ∃ front, (comment text indent).toList = front ++ "*/".toList ∧
      ∀ before behind, (comment text indent).toList = before ++ "*/".toList ++ behind → behind = [] := by
  have hmargin : ∀ c ∈ List.replicate indent ' ', c = ' ' := fun c hc => List.eq_of_mem_replicate hc
  rw [toList_comment, blockLines]
  generalize List.replicate indent ' ' = margin at hmargin ⊢
  refine ⟨⟨(commentLines text).map (commentLine margin), rfl, by rw [List.length_map, length_commentLines], ?_⟩, ?_⟩
  · rw [List.forall₂_map_right_iff, List.forall₂_same]
    exact fun line hline => shows_commentLine hmargin (isLineEnd_of_mem_commentLines hline)
  have hfront := unclosed_untilSlash hmargin text
  obtain ⟨front, hfrontEq⟩ :=
    exists_intercalate_concat ['\n'] ((margin ++ "/**".toList) :: (commentLines text).map (commentLine margin))
  rw [← List.cons_append, hfrontEq, ← List.append_assoc] at hfront
  have hwhole : front ++ (margin ++ " */".toList) = front ++ margin ++ " *".toList ++ ['/'] := by simp
  rw [← List.cons_append, hfrontEq, hwhole]
  refine ⟨front ++ margin ++ [' '], by simp, fun before behind heq => ?_⟩
  rcases List.eq_nil_or_concat behind with hnil | ⟨more, c, rfl⟩
  · exact hnil
  · rw [List.concat_eq_append, ← List.append_assoc] at heq
    exact absurd ⟨before, more, (List.append_inj' heq rfl).1.symm⟩ hfront.not_infix

end Emit
end TypedClient
