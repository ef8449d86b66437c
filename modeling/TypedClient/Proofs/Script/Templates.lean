import TypedClient.Emit.PathTemplate
import TypedClient.Proofs.Replacing
import TypedClient.Proofs.Script.Literals
/-!
# Templates — the template literal of a path, as the printed language reads it

A template literal says pieces of text with names substituted between them.  The literal of a path is made of the texts between
its placeholders, each of them escaped by three replacements, and of the names that stand for the placeholders
(`templateBody_eq_weave`).  It reads as just these texts and names (`readPieces?_templateBody`).
-/
namespace TypedClient
namespace Script

/-- A template literal: its pieces of text, and the names between them. -/
structure Template where
  pieces : List (List Char)
  names : List (List Char)
  deriving DecidableEq

namespace Template

/-- The template with more text before it. -/
def say (cs : List Char) (t : Template) : Template :=
  match t.pieces with
  | [] => { t with pieces := [cs] }
  | piece :: more => { t with pieces := (cs ++ piece) :: more }

/-- The template with a name before it. -/
def substitute (name : List Char) (t : Template) : Template :=
  ⟨[] :: t.pieces, name :: t.names⟩

end Template

/-- Reads a template from behind its opening back quote.  The closing one must be the last character; every line end in the text
counts as a line feed, and what is substituted must be a name. -/
def readPieces? : List Char → Option Template
  | [] => none
  | c :: rest =>
    if c = '\x60' then (if rest = [] then some ⟨[[]], []⟩ else none)
    else if c = '\\' then
      match _h : readEscape? rest with
      | some (read, more) => (readPieces? more).map (.say read)
      | none => none
    else if c = '$' && rest.head? = some '{' then
      match _h : readName? rest.tail with
      | some (name, '}' :: more) => (readPieces? more).map (.substitute name)
      | _ => none
    else if c = '\r' then
      (readPieces? (if rest.head? = some '\n' then rest.tail else rest)).map (.say ['\n'])
    else (readPieces? rest).map (.say [c])
termination_by cs => cs.length
decreasing_by
  · have := length_of_readEscape? _h
    simp only [List.length_cons]
    omega
  · have := length_of_readName? _h
    simp only [List.length_cons, List.length_tail] at this ⊢
    omega
  · simp only [List.length_cons]
    split
    · simp only [List.length_tail]
      omega
    · omega
  · simp

/-- **The template that a literal is**, if it is one. -/
def template? (literal : String) : Option Template :=
  match literal.toList with
  | '\x60' :: rest => readPieces? rest
  | _ => none

/-- A text with a line feed for every line end, as a template says it. -/
def lineFeeds : List Char → List Char
  | [] => []
  | c :: rest =>
    if c = '\r' then (if rest.head? = some '\n' then lineFeeds rest else '\n' :: lineFeeds rest) else c :: lineFeeds rest

variable {c : Char} {cs rest : List Char}

theorem lineFeeds_eq_self : ∀ {cs : List Char}, '\r' ∉ cs → lineFeeds cs = cs
  | [], _ => rfl
  | c :: cs, h => by
    rw [lineFeeds, if_neg (List.ne_of_not_mem_cons h).symm, lineFeeds_eq_self (List.not_mem_of_not_mem_cons h)]

theorem readPieces?_escape {read : List Char} (h : readEscape? cs = some (read, rest)) :
    readPieces? ('\\' :: cs) = (readPieces? rest).map (.say read) := by
  rw [readPieces?, if_neg (by decide), if_pos rfl]
  split
  · rename_i h'
    cases h.symm.trans h'
    rfl
  · rename_i h'
    cases h.symm.trans h'

theorem readPieces?_char (hend : c ≠ '\x60') (hescape : c ≠ '\\') (hopen : ¬ (c = '$' ∧ cs.head? = some '{'))
    (hreturn : c ≠ '\r') : readPieces? (c :: cs) = (readPieces? cs).map (.say [c]) := by
  rw [readPieces?, if_neg hend, if_neg hescape, if_neg (by simpa using hopen), if_neg hreturn]

/-- A carriage return is read as a line feed, or not at all before one. -/
theorem readPieces?_return (cs : List Char) : readPieces? ('\r' :: cs) =
    if cs.head? = some '\n' then readPieces? cs else (readPieces? cs).map (.say ['\n']) := by
  rw [readPieces?, if_neg (by decide), if_neg (by decide), if_neg (by simp), if_pos rfl]
  split
  · rename_i hfeed
    obtain ⟨cs, rfl⟩ := List.head?_eq_some_iff.1 hfeed
    rw [readPieces?_char (by decide) (by decide) (by simp) (by decide), List.tail_cons]
  · rfl

theorem readPieces?_name {name : List Char} (h : isName name = true) :
    readPieces? ('$' :: '{' :: (name ++ '}' :: cs)) = (readPieces? cs).map (.substitute name) := by
  have hread : readName? (name ++ '}' :: cs) = some (name, '}' :: cs) :=
    readName?_append h (by simp [show isNameChar '}' = false by decide])
  rw [readPieces?, if_neg (by decide), if_neg (by decide), if_pos (by simp), List.tail_cons]
  split
  · rename_i h'
    cases hread.symm.trans h'
    rfl
  · rename_i h'
    exact absurd hread (h' name cs)

end Script

namespace Emit

/-- The texts between the placeholders. -/
def textsOf : List PathPart → List (List Char)
  | [] => [[]]
  | .char c :: rest =>
    match textsOf rest with
    | [] => [[c]]
    | text :: more => (c :: text) :: more
  | .hole _ :: rest => [] :: textsOf rest

/-- The placeholder that a part is, if it is one. -/
def PathPart.hole? : PathPart → Option String
  | .char _ => none
  | .hole name => some name

/-- Texts with others between them. -/
def weave : List (List Char) → List (List Char) → List Char
  | [], _ => []
  | text :: _, [] => text
  | text :: texts, b :: between => text ++ (b ++ weave texts between)

/-- A text of a path as it stands in the literal: the backslash is escaped first, then the back quote, then a dollar sign before
a brace. -/
def escapeText (cs : List Char) : List Char :=
  Text.replacePair '$' '{' ['\\', '$', '{']
    (Text.replaceChar '\x60' ['\\', '\x60'] (Text.replaceChar '\\' ['\\', '\\'] cs))

variable {argument? : String → Option String} {parts : List PathPart} {c : Char} {cs body : List Char}

theorem mem_placeholders {path hole : String} : hole ∈ placeholders path ↔ .hole hole ∈ pathParts path := by
  unfold placeholders
  rw [List.mem_filterMap]
  constructor
  · rintro ⟨part, hpart, heq⟩
    cases part with
    | char c => cases heq
    | hole name =>
      cases heq
      exact hpart
  · exact fun h => ⟨_, h, rfl⟩

theorem exists_templateBody {argument? : String → Option String} : ∀ {parts : List PathPart},
    (∀ hole, .hole hole ∈ parts → (argument? hole).isSome = true) → ∃ body, templateBody argument? parts = some body
  | [], _ => ⟨[], rfl⟩
  | .hole name :: rest, h => by
    obtain ⟨argument, hargument⟩ := Option.isSome_iff_exists.1 (h name List.mem_cons_self)
    obtain ⟨body, hbody⟩ := exists_templateBody fun hole hm => h hole (List.mem_cons_of_mem _ hm)
    unfold templateBody
    rw [hargument, hbody]
    exact ⟨_, rfl⟩
  | .char c :: rest, h => by
    obtain ⟨body, hbody⟩ := exists_templateBody fun hole hm => h hole (List.mem_cons_of_mem _ hm)
    unfold templateBody
    rw [hbody]
    dsimp only
    split
    · exact ⟨_, rfl⟩
    · exact ⟨_, rfl⟩

theorem placeholders_eq (path : String) : placeholders path = (pathParts path).filterMap PathPart.hole? := by
  unfold placeholders
  congr 1
  funext part
  cases part <;> rfl

theorem exists_textsOf : ∀ parts : List PathPart, ∃ text more, textsOf parts = text :: more
  | [] => ⟨[], [], rfl⟩
  | .char c :: rest => by
    obtain ⟨text, more, h⟩ := exists_textsOf rest
    exact ⟨c :: text, more, by rw [textsOf, h]⟩
  | .hole _ :: rest => ⟨[], textsOf rest, rfl⟩

theorem weave_append (cs text : List Char) (texts between : List (List Char)) :
    weave ((cs ++ text) :: texts) between = cs ++ weave (text :: texts) between := by
  cases between with
  | nil => rfl
  | cons b between => rw [weave, weave, List.append_assoc]

/-- **The texts and what stands for the placeholders** are the parts, one after the other. -/
theorem weave_textsOf (f : String → List Char) : ∀ parts : List PathPart,
    weave (textsOf parts) ((parts.filterMap PathPart.hole?).map f) =
      parts.flatMap fun | .char c => [c] | .hole name => f name
  | [] => rfl
  | .char c :: rest => by
    obtain ⟨text, more, h⟩ := exists_textsOf rest
    have ih := weave_textsOf f rest
    rw [h] at ih
    rw [textsOf, h, List.flatMap_cons, ← ih]
    exact weave_append [c] text more _
  | .hole name :: rest => by
    rw [textsOf, List.flatMap_cons, ← weave_textsOf f rest]
    rfl

/-- A placeholder as the path has it. -/
def braced (name : String) : List Char := '{' :: (name.toList ++ ['}'])

theorem flatMap_pathPartsFrom : ∀ (cs : List Char),
    ((pathPartsFrom none cs).flatMap fun | .char c => [c] | .hole name => braced name) = cs ∧
    ∀ pending : List Char, ((pathPartsFrom (some pending) cs).flatMap fun | .char c => [c] | .hole name => braced name) =
      '{' :: (pending.reverse ++ cs)
  | [] => by
    refine ⟨rfl, fun pending => ?_⟩
    rw [pathPartsFrom, List.flatMap_cons, List.flatMap_map, List.append_nil]
    simp
  | c :: cs => by
    obtain ⟨hnone, hsome⟩ := flatMap_pathPartsFrom cs
    constructor
    · rw [pathPartsFrom]
      split
      · rename_i hc
        rw [hsome, hc]
        rfl
      · rw [List.flatMap_cons, hnone]
        rfl
    · intro pending
      unfold pathPartsFrom
      split
      · rename_i hc
        split
        · rw [List.flatMap_cons, List.flatMap_cons, hnone, hc]
          rfl
        · rw [List.flatMap_cons, hnone, hc]
          simp [braced]
      · rw [hsome, List.reverse_cons, List.append_assoc]
        rfl

/-- **A path is its texts with its placeholders between them.** -/
theorem weave_path (path : String) :
    weave (textsOf (pathParts path)) ((placeholders path).map braced) = path.toList := by
  rw [placeholders_eq, weave_textsOf]
  exact (flatMap_pathPartsFrom path.toList).1

/-! ## The literal -/

/-- **How a text is escaped, character by character.** -/
theorem escapeText_cons (c : Char) (cs : List Char) : escapeText (c :: cs) =
    if c = '\\' ∨ c = '\x60' ∨ (c = '$' ∧ cs.head? = some '{') then '\\' :: c :: escapeText cs
    else c :: escapeText cs := by
  have hplain : ∀ d ds, d ≠ '$' → Text.replacePair '$' '{' ['\\', '$', '{'] (d :: ds) =
      d :: Text.replacePair '$' '{' ['\\', '$', '{'] ds :=
    fun d ds hd => Text.replacePair_cons fun h => hd h.1
  unfold escapeText
  rw [Text.replaceChar_cons]
  by_cases hback : c = '\\'
  · subst hback
    simp [Text.replaceChar_cons, hplain]
  by_cases hquote : c = '\x60'
  · subst hquote
    simp [Text.replaceChar_cons, hplain]
  by_cases hdollar : c = '$'
  · subst hdollar
    by_cases hbrace : cs.head? = some '{'
    · obtain ⟨cs, rfl⟩ := List.head?_eq_some_iff.1 hbrace
      simp [Text.replaceChar_cons, Text.replacePair_pair, hplain]
    · -- the replacements before do not bring a brace behind the dollar sign
      have hhead : (Text.replaceChar '\x60' ['\\', '\x60'] (Text.replaceChar '\\' ['\\', '\\'] cs)).head? ≠
          some '{' := by
        intro h
        rcases Text.head?_replaceChar h (by simp) with h | h
        · rcases Text.head?_replaceChar h (by simp) with h | h
          · exact hbrace h
          · cases h
        · cases h
      rw [if_neg (by decide), if_neg (by simpa using hbrace), List.singleton_append, Text.replaceChar_cons,
        if_neg (by decide), List.singleton_append, Text.replacePair_cons fun h => hhead h.2]
  · simp [Text.replaceChar_cons, hplain, hback, hquote, hdollar]

/-- What is written for a name. -/
def substituted (name : List Char) : List Char := '$' :: '{' :: (name ++ ['}'])

/-- What begins with a character of the path is a text that does. -/
theorem head?_text {text : List Char} {more : List (List Char)} (h : textsOf parts = text :: more) (d : Char) :
    parts.head? = some (.char d) ↔ text.head? = some d := by
  cases parts with
  | nil =>
    cases h
    simp
  | cons part rest =>
    cases part with
    | hole name =>
      cases h
      simp
    | char e =>
      obtain ⟨text', more', h'⟩ := exists_textsOf rest
      rw [textsOf, h'] at h
      cases h
      simp

theorem templateBody_hole {rest : List PathPart} {hole : String} (h : templateBody argument? (.hole hole :: rest) = some body) :
    ∃ name behind, argument? hole = some name ∧ templateBody argument? rest = some behind ∧
      body = '$' :: '{' :: (name.toList ++ '}' :: behind) := by
  unfold templateBody at h
  split at h
  · rename_i name behind hname hrest
    cases h
    exact ⟨name, behind, hname, hrest, rfl⟩
  · cases h

theorem templateBody_char {rest : List PathPart} (h : templateBody argument? (.char c :: rest) = some body) :
    ∃ behind, templateBody argument? rest = some behind ∧
      ((c = '\\' ∨ c = '\x60' ∨ c = '$') ∧ body = '\\' :: c :: behind ∨
        (c ≠ '\\' ∧ c ≠ '\x60' ∧ ¬ (c = '$' ∧ rest.head? = some (.char '{'))) ∧ body = c :: behind) := by
  unfold templateBody at h
  split at h
  · rename_i behind hrest
    split at h
    · rename_i hc
      simp only [Bool.or_eq_true, Bool.and_eq_true, decide_eq_true_eq, or_assoc] at hc
      cases h
      exact ⟨behind, hrest, .inl ⟨hc.imp_right (Or.imp_right And.left), rfl⟩⟩
    · rename_i hc
      simp only [Bool.or_eq_true, Bool.and_eq_true, decide_eq_true_eq, not_or, and_assoc] at hc
      cases h
      exact ⟨behind, hrest, .inr ⟨hc, rfl⟩⟩
  · cases h

/-- What needs no escape stands at the beginning of the literal exactly if the path begins with it. -/
theorem head?_templateBody_iff (h : templateBody argument? parts = some body) (hback : c ≠ '\\') (hquote : c ≠ '\x60')
    (hdollar : c ≠ '$') : (body ++ ['\x60']).head? = some c ↔ parts.head? = some (.char c) := by
  cases parts with
  | nil =>
    cases h
    simp [hquote.symm]
  | cons part rest =>
    cases part with
    | hole hole =>
      obtain ⟨name, behind, -, -, rfl⟩ := templateBody_hole h
      simp [hdollar.symm]
    | char d =>
      obtain ⟨behind, -, ⟨hd, rfl⟩ | ⟨-, rfl⟩⟩ := templateBody_char h
      · simp only [List.cons_append, List.head?_cons, Option.some.injEq, PathPart.char.injEq, hback.symm, false_iff]
        rintro rfl
        rcases hd with hd | hd | hd <;> contradiction
      · simp

/-- **The inside of the literal**: the texts, each of them escaped, with the names between them. -/
theorem templateBody_eq_weave : ∀ {parts : List PathPart} {body : List Char}, templateBody argument? parts = some body →
    body = weave ((textsOf parts).map escapeText)
      ((parts.filterMap PathPart.hole?).map fun hole => substituted ((argument? hole).getD "").toList)
  | [], body, h => by
    cases h
    rfl
  | .hole hole :: rest, body, h => by
    obtain ⟨name, behind, hname, hrest, rfl⟩ := templateBody_hole h
    have hfirst : PathPart.hole? (.hole hole) = some hole := rfl
    rw [textsOf, List.filterMap_cons_some hfirst, List.map_cons, List.map_cons, hname, weave,
      ← templateBody_eq_weave hrest]
    simp [substituted, escapeText, Text.replaceChar, Text.replacePair]
  | .char c :: rest, body, h => by
    obtain ⟨text, more, htexts⟩ := exists_textsOf rest
    have hfirst : PathPart.hole? (.char c) = none := rfl
    rw [textsOf, htexts, List.filterMap_cons_none hfirst]
    dsimp only
    rw [List.map_cons, escapeText_cons]
    unfold templateBody at h
    split at h
    · rename_i behind hrest
      have ih := templateBody_eq_weave hrest
      rw [htexts, List.map_cons] at ih
      -- a brace follows in the path exactly if it follows in the text
      simp only [Bool.or_eq_true, Bool.and_eq_true, decide_eq_true_eq, or_assoc, head?_text htexts] at h
      split at h
      · rename_i hc
        cases h
        rw [if_pos hc, ih]
        exact (weave_append ['\\', c] _ _ _).symm
      · rename_i hc
        cases h
        rw [if_neg hc, ih]
        exact (weave_append [c] _ _ _).symm
    · cases h

/-! ## Reading it -/

open Script (Template lineFeeds readPieces? readPieces?_return template? isName readEscape? readPieces?_escape
  readPieces?_char readPieces?_name)

/-- A character of the path that is no carriage return reads as itself, whether it is escaped or not. -/
theorem readPieces?_templateChar {c : Char} {rest : List PathPart} {body behind : List Char}
    (h : templateBody argument? (.char c :: rest) = some body) (hrest : templateBody argument? rest = some behind)
    (hc : c ≠ '\r') : readPieces? (body ++ ['\x60']) = (readPieces? (behind ++ ['\x60'])).map (.say [c]) := by
  obtain ⟨behind', hrest', hbody⟩ := templateBody_char h
  cases Option.some.inj (hrest.symm.trans hrest')
  rcases hbody with ⟨hspecial, rfl⟩ | ⟨⟨hescape, hend, hopen⟩, rfl⟩
  · have hescape : readEscape? (c :: (behind ++ ['\x60'])) = some ([c], behind ++ ['\x60']) := by
      rcases hspecial with rfl | rfl | rfl <;> rfl
    exact readPieces?_escape hescape
  · -- what follows a dollar sign of the path is no brace of a substitution
    have hopen' : ¬ (c = '$' ∧ (behind ++ ['\x60']).head? = some '{') := fun ⟨hdollar, hhead⟩ =>
      hopen ⟨hdollar, (head?_templateBody_iff hrest (by decide) (by decide) (by decide)).1 hhead⟩
    exact readPieces?_char hend hescape hopen' hc

/-- **The literal reads as the texts, with the names between them.** -/
theorem readPieces?_templateBody : ∀ {parts : List PathPart} {body : List Char},
    templateBody argument? parts = some body →
    (∀ hole name, .hole hole ∈ parts → argument? hole = some name → isName name.toList = true) →
    readPieces? (body ++ ['\x60']) = some ⟨(textsOf parts).map lineFeeds,
      (parts.filterMap PathPart.hole?).map fun hole => ((argument? hole).getD "").toList⟩
  | [], body, h, _ => by
    cases h
    simp [readPieces?, textsOf, lineFeeds]
  | .hole hole :: rest, body, h, hnames => by
    obtain ⟨name, behind, hname, hrest, rfl⟩ := templateBody_hole h
    have hfirst : PathPart.hole? (.hole hole) = some hole := rfl
    have ih := readPieces?_templateBody hrest fun hole name hm => hnames hole name (List.mem_cons_of_mem _ hm)
    rw [List.cons_append, List.cons_append, List.append_assoc, List.cons_append,
      readPieces?_name (hnames hole name List.mem_cons_self hname), ih, List.filterMap_cons_some hfirst, List.map_cons, hname]
    rfl
  | .char c :: rest, body, h, hnames => by
    obtain ⟨text, more, htexts⟩ := exists_textsOf rest
    have hfirst : PathPart.hole? (.char c) = none := rfl
    obtain ⟨behind, hrest, hbody⟩ := templateBody_char h
    have ih := readPieces?_templateBody hrest fun hole name hm => hnames hole name (List.mem_cons_of_mem _ hm)
    rw [textsOf, List.filterMap_cons_none hfirst]
    rw [htexts] at ih ⊢
    by_cases hc : c = '\r'
    · subst hc
      have hfeed : (behind ++ ['\x60']).head? = some '\n' ↔ text.head? = some '\n' :=
        (head?_templateBody_iff hrest (by decide) (by decide) (by decide)).trans (head?_text htexts '\n')
      have hread : body = '\r' :: behind := by
        rcases hbody with ⟨hspecial, -⟩ | ⟨-, h⟩
        · exact absurd hspecial (by decide)
        · exact h
      rw [hread, List.cons_append, readPieces?_return, ih, List.map_cons, List.map_cons, lineFeeds, if_pos rfl]
      simp only [hfeed]
      split <;> rfl
    · rw [readPieces?_templateChar h hrest hc, ih, List.map_cons, List.map_cons, lineFeeds, if_neg hc]
      rfl

theorem template?_pathTemplate? (hnames : ∀ hole name, argument? hole = some name → isName name.toList = true)
    {path literal : String} (h : pathTemplate? path argument? = some literal) :
    template? literal = some ⟨(textsOf (pathParts path)).map lineFeeds,
      (placeholders path).map fun hole => ((argument? hole).getD "").toList⟩ := by
  obtain ⟨body, hbody, rfl⟩ := Option.map_eq_some_iff.1 h
  rw [template?, String.toList_ofList, placeholders_eq]
  exact readPieces?_templateBody hbody fun hole name _ => hnames hole name

theorem char_mem_of_mem_textsOf : ∀ {parts : List PathPart} {text : List Char}, text ∈ textsOf parts → c ∈ text →
    .char c ∈ parts
  | [], text, ht, hc => by
    cases List.mem_singleton.1 ht
    cases hc
  | .hole _ :: rest, text, ht, hc => by
    rcases List.mem_cons.1 ht with rfl | ht
    · cases hc
    · exact List.mem_cons_of_mem _ (char_mem_of_mem_textsOf ht hc)
  | .char d :: rest, text, ht, hc => by
    obtain ⟨first, more, htexts⟩ := exists_textsOf rest
    rw [textsOf, htexts] at ht
    rcases List.mem_cons.1 ht with rfl | ht
    · rcases List.mem_cons.1 hc with rfl | hc
      · exact List.mem_cons_self
      · exact List.mem_cons_of_mem _ (char_mem_of_mem_textsOf (htexts ▸ List.mem_cons_self) hc)
    · exact List.mem_cons_of_mem _ (char_mem_of_mem_textsOf (htexts ▸ List.mem_cons_of_mem _ ht) hc)

theorem char_mem_path {path : String} (h : .char c ∈ pathParts path) : c ∈ path.toList := by
  rw [← (flatMap_pathPartsFrom path.toList).1]
  exact List.mem_flatMap.2 ⟨_, h, List.mem_singleton_self c⟩

/-- **The literal of a path reads as the path.**  Whatever names its placeholders have, there is a literal.  It is made of the
texts between the placeholders, escaped, with the names between them, and reads as one template: its pieces are these texts and
its substitutions these names, in their order. -/
theorem pathTemplate_read (path : String) (argument? : String → Option String)
    (hnames : ∀ hole ∈ placeholders path, ∃ name, argument? hole = some name ∧ isName name.toList = true)
    (hreturn : '\r' ∉ path.toList) :
    ∃ (names : List String) (literal : String), pathTemplate? path argument? = some literal ∧
      (placeholders path).map argument? = names.map some ∧
      weave (textsOf (pathParts path)) ((placeholders path).map braced) = path.toList ∧
      literal.toList = '\x60' ::
        (weave ((textsOf (pathParts path)).map escapeText) (names.map (substituted ·.toList)) ++ ['\x60']) ∧
      template? literal = some ⟨textsOf (pathParts path), names.map String.toList⟩ := by
  have hassigned : ∀ hole, .hole hole ∈ pathParts path → (argument? hole).isSome = true := by
    intro hole hm
    obtain ⟨name, hname, -⟩ := hnames hole (mem_placeholders.2 hm)
    rw [hname]
    rfl
  have hplain : ∀ hole name, .hole hole ∈ pathParts path → argument? hole = some name → isName name.toList = true := by
    intro hole name hm hname
    obtain ⟨name', hname', hname''⟩ := hnames hole (mem_placeholders.2 hm)
    cases hname.symm.trans hname'
    exact hname''
  obtain ⟨body, hbody⟩ := exists_templateBody hassigned
  refine ⟨(placeholders path).map fun hole => (argument? hole).getD "", String.ofList ('\x60' :: (body ++ ['\x60'])),
    by rw [pathTemplate?, hbody]; rfl, ?_, weave_path path, ?_, ?_⟩
  · rw [List.map_map]
    refine List.map_congr_left fun hole hm => ?_
    obtain ⟨name, hname, -⟩ := hnames hole hm
    rw [Function.comp_apply, hname]
    rfl
  · rw [String.toList_ofList, placeholders_eq, List.map_map, templateBody_eq_weave hbody]
    rfl
  · have hread := readPieces?_templateBody hbody hplain
    have hfeeds : (textsOf (pathParts path)).map lineFeeds = textsOf (pathParts path) := by
      refine (List.map_congr_left fun text ht => ?_).trans (List.map_id _)
      exact Script.lineFeeds_eq_self fun hmem => hreturn (char_mem_path (char_mem_of_mem_textsOf ht hmem))
    rw [template?, String.toList_ofList]
    change readPieces? (body ++ ['\x60']) = _
    rw [hread, hfeeds, placeholders_eq, List.map_map]
    rfl

/-- The thing of a shop, in a path where almost everything needs an escape. -/
def oddPath : String := "/a\\\x60$\x7bshop\x7d$\x7b\x7d\\\x7b\x7bid\x7d"

theorem oddPath_read : ∃ literal, pathTemplate? oddPath (fun hole => if hole = "shop" then some "shop" else some "id2") =
      some literal ∧
    template? literal = some ⟨["/a\\\x60$".toList, "$\x7b\x7d\\".toList, []], ["shop".toList, "id2".toList]⟩ := by
  have hholes : placeholders oddPath = ["shop", "\x7bid"] := by decide +kernel
  have htexts : textsOf (pathParts oddPath) = ["/a\\\x60$".toList, "$\x7b\x7d\\".toList, []] := by decide +kernel
  obtain ⟨names, literal, hliteral, hnames, -, -, hread⟩ := pathTemplate_read oddPath
    (fun hole => if hole = "shop" then some "shop" else some "id2") (by
      intro hole _
      split <;> exact ⟨_, rfl, by decide⟩) (by decide +kernel)
  rw [hholes] at hnames
  obtain rfl : names = ["shop", "id2"] := List.map_injective_iff.2 (fun _ _ => Option.some.inj) (hnames.symm.trans rfl)
  exact ⟨literal, hliteral, htexts ▸ hread⟩

end Emit
end TypedClient
