import TypedClient.Document.Node
import TypedClient.Proofs.Script.Literals
/-!
# Expressions — a fragment of the printed language, read and evaluated

The fragment has names, texts, members of a value by name and by text, calls with one argument, and functions with one typed
parameter and an expression for their body.  Anything else is refused.  That a text reads as an expression means that it does
so wherever an expression may start (`ReadsAs`), so that texts put together in one of the forms of the fragment read as their
expressions put together in that form.
-/
namespace TypedClient
namespace Script

/-! ## Tokens -/

/-- A token of an expression. -/
inductive Token where
  | name (name : String)
  | text (text : String)
  | number (n : Nat)
  | dot
  | colon
  | over
  | opening
  | closing
  | left
  | right
  | arrow
  | same
  | differs
  | both
  deriving DecidableEq

/-- The token that a character is by itself. -/
def sign? : Char → Option Token
  | '.' => some .dot
  | ':' => some .colon
  | '/' => some .over
  | '[' => some .opening
  | ']' => some .closing
  | '(' => some .left
  | ')' => some .right
  | _ => none

/-- The token of several signs that a text begins with, and what follows it. -/
def operator? : List Char → Option (Token × List Char)
  | '=' :: '>' :: rest => some (.arrow, rest)
  | '=' :: '=' :: '=' :: rest => some (.same, rest)
  | '!' :: '=' :: '=' :: rest => some (.differs, rest)
  | '&' :: '&' :: rest => some (.both, rest)
  | _ => none

/-- Whether the character only stands between tokens. -/
def isSpace (c : Char) : Bool :=
  c == ' ' || c == '\t' || c == '\n' || c == '\r'

/-- **The token that a text begins with**, and what follows it. -/
def token? : List Char → Option (Token × List Char)
  | [] => none
  | c :: rest =>
    if c = '"' then (readQuoted? rest).map fun (text, more) => (.text (String.ofList text), more)
    else if let some t := sign? c then some (t, rest)
    else if let some found := operator? (c :: rest) then some found
    else if let some (n, more) := readNumber? (c :: rest) then some (.number n, more)
    else (readName? (c :: rest)).map fun (name, more) => (.name (String.ofList name), more)

theorem length_of_operator? {cs rest : List Char} {t : Token} (h : operator? cs = some (t, rest)) :
    rest.length < cs.length := by
  unfold operator? at h
  split at h <;> cases h <;> simp only [List.length_cons] <;> omega

theorem length_of_token? {cs rest : List Char} {t : Token} (h : token? cs = some (t, rest)) : rest.length < cs.length := by
  cases cs with
  | nil => cases h
  | cons c cs =>
    rw [token?] at h
    split at h
    · obtain ⟨⟨text, more⟩, hread, h⟩ := Option.map_eq_some_iff.1 h
      cases h
      exact Nat.lt_succ_of_lt (length_of_readQuoted? hread)
    split at h
    · cases h
      exact Nat.lt_succ_self _
    split at h
    · rename_i hread
      cases h
      exact length_of_operator? hread
    split at h
    · rename_i hread
      cases h
      exact length_of_readNumber? hread
    · obtain ⟨⟨name, more⟩, hread, h⟩ := Option.map_eq_some_iff.1 h
      cases h
      exact length_of_readName? hread

/-- **The tokens of a text**, none if it has something that the fragment does not know. -/
def tokens? : List Char → Option (List Token)
  | [] => some []
  | c :: rest =>
    if isSpace c then tokens? rest
    else
      match _h : token? (c :: rest) with
      | some (t, more) => (tokens? more).map (t :: ·)
      | none => none
termination_by cs => cs.length
decreasing_by
  · simp
  · exact length_of_token? _h

/-! ## Expressions -/

/-- An expression of the fragment. -/
inductive Expr where
  | name (name : String)
  | text (text : String)
  /-- The member of a value that has a name. -/
  | member (base : Expr) (name : String)
  /-- The member of a value that a text says. -/
  | index (base key : Expr)
  | call (function argument : Expr)
  | function (parameter : String) (body : Expr)
  deriving DecidableEq

/-- What is open where an expression starts. -/
inductive Frame where
  | group
  | index (base : Expr)
  | argument (function : Expr)
  | body (parameter : String)

/-- Ends the functions whose bodies end with the expression. -/
def closeBodies : Expr → List Frame → Expr × List Frame
  | e, .body parameter :: frames => closeBodies (.function parameter e) frames
  | e, frames => (e, frames)

/-- **Reads tokens** inside of what is open, the inmost first, from the start of an expression or from behind one. -/
def parse? : List Frame → Option Expr → List Token → Option Expr
  | frames, none, .name x :: ts => parse? frames (some (.name x)) ts
  | frames, none, .text s :: ts => parse? frames (some (.text s)) ts
  | frames, none, .left :: .name x :: .colon :: .name _ :: .right :: .arrow :: ts => parse? (.body x :: frames) none ts
  | frames, none, .left :: ts => parse? (.group :: frames) none ts
  | frames, some e, .dot :: .name x :: ts => parse? frames (some (.member e x)) ts
  | frames, some e, .opening :: ts => parse? (.index e :: frames) none ts
  | frames, some e, .left :: ts => parse? (.argument e :: frames) none ts
  | frames, some e, .closing :: ts =>
    match closeBodies e frames with
    | (key, .index base :: frames) => parse? frames (some (.index base key)) ts
    | _ => none
  | frames, some e, .right :: ts =>
    match closeBodies e frames with
    | (e, .group :: frames) => parse? frames (some e) ts
    | (e, .argument f :: frames) => parse? frames (some (.call f e)) ts
    | _ => none
  | frames, some e, [] =>
    match closeBodies e frames with
    | (e, []) => some e
    | _ => none
  | _, _, _ => none

/-- **The expression that a text is**, if it is one of the fragment. -/
def read? (text : String) : Option Expr :=
  (tokens? text.toList).bind (parse? [] none)

namespace Expr

/-- **The value of an expression** where names have values.  A map over a list comes to the values of its function's body, with
the parameter for each element in turn; functions are no values. -/
def value? (named : String → Option Node) : Expr → Option Node
  | .name x => named x
  | .text s => some (.str s)
  | .member base x => (base.value? named).bind (·.get? x)
  | .index base key =>
    match base.value? named, key.value? named with
    | some v, some (.str s) => v.get? s
    | _, _ => none
  | .call (.member base method) (.function parameter body) =>
    if method = "map" then
      match base.value? named with
      | some (.list _ values) =>
        (values.mapM fun x => body.value? fun y => if y = parameter then some x else named y).map (.list none)
      | _ => none
    else none
  | .call _ _ | .function _ _ => none

/-- **Whether every name is that of the inmost function around it**, `own` outside of all, and no function around another one
takes its parameter from it. -/
def NamesOwn (own : String) (outer : List String) : Expr → Prop
  | .name x => x = own
  | .text _ => True
  | .member base _ => base.NamesOwn own outer
  | .index base key => base.NamesOwn own outer ∧ key.NamesOwn own outer
  | .call f argument => f.NamesOwn own outer ∧ argument.NamesOwn own outer
  | .function parameter body => parameter ∉ own :: outer ∧ body.NamesOwn parameter (own :: outer)

end Expr

/-! ## Texts that have tokens -/

variable {c : Char} {text rest : List Char} {t : Token} {ts us : List Token}

/-- A name does not go on with a sign. -/
theorem head_sign (ht : sign? c = some t) : ∀ d ∈ (c :: text).head?, isNameChar d = false := by
  intro d hd
  cases hd
  unfold sign? at ht
  split at ht
  all_goals first | rfl | cases ht

theorem head_space : ∀ d ∈ (' ' :: text).head?, isNameChar d = false := by
  rintro d ⟨⟩
  decide

theorem token?_of_isSpace (h : isSpace c = true) : token? (c :: rest) = none := by
  simp only [isSpace, Bool.or_eq_true, beq_iff_eq] at h
  obtain ((rfl | rfl) | rfl) | rfl := h
  all_goals rfl

theorem tokens?_of_token? (h : token? text = some (t, rest)) : tokens? text = (tokens? rest).map (t :: ·) := by
  cases text with
  | nil => cases h
  | cons c cs =>
    have hspace : ¬ isSpace c = true := fun hspace => by
      rw [token?_of_isSpace hspace] at h
      cases h
    rw [tokens?, if_neg hspace]
    split
    · rename_i h'
      cases h.symm.trans h'
      rfl
    · rename_i h'
      cases h.symm.trans h'

theorem token?_sign (ht : sign? c = some t) : token? (c :: rest) = some (t, rest) := by
  have hquote : c ≠ '"' := by
    rintro rfl
    cases ht
  rw [token?, if_neg hquote, ht]

/-- What begins with a character of names is read as a number or as a name. -/
theorem token?_word (hc : isNameChar c = true) : token? (c :: rest) =
    match readNumber? (c :: rest) with
    | some (n, more) => some (.number n, more)
    | none => (readName? (c :: rest)).map fun (name, more) => (.name (String.ofList name), more) := by
  have hother : ∀ d, isNameChar d = false → c ≠ d := by
    rintro d hd rfl
    cases hd.symm.trans hc
  have hsign : sign? c = none := by
    unfold sign?
    split
    all_goals first | rfl | exact absurd rfl (hother _ (by decide))
  have hoperator : operator? (c :: rest) = none := by
    unfold operator?
    split
    all_goals first | rfl | (rename_i h; exact absurd (List.cons.inj h).1 (hother _ (by decide)))
  rw [token?, if_neg (hother _ (by decide)), hsign, hoperator]
  dsimp only
  cases readNumber? (c :: rest) <;> rfl

/-- Whether a text has tokens, whatever follows it, if that does not go on with a name. -/
def Lexes (text : List Char) (ts : List Token) : Prop :=
  ∀ rest, (∀ c ∈ rest.head?, isNameChar c = false) → tokens? (text ++ rest) = (tokens? rest).map (ts ++ ·)

namespace Lexes

theorem nil : Lexes [] [] := by
  intro rest _
  simp

theorem append {behind : List Char} (h : Lexes text ts) (hbehind : Lexes behind us)
    (hhead : ∀ c ∈ behind.head?, isNameChar c = false) : Lexes (text ++ behind) (ts ++ us) := by
  intro rest hrest
  have hnext : ∀ c ∈ (behind ++ rest).head?, isNameChar c = false := by
    cases behind with
    | nil => exact hrest
    | cons d _ => exact hhead
  rw [List.append_assoc, h _ hnext, hbehind _ hrest, Option.map_map]
  simp [Function.comp_def]

/-- A token in front that is read whatever follows it. -/
theorem token {p : List Char} (hp : ∀ more, token? (p ++ more) = some (t, more)) (h : Lexes text ts) :
    Lexes (p ++ text) (t :: ts) := by
  intro rest hrest
  rw [List.append_assoc, tokens?_of_token? (hp _), h _ hrest, Option.map_map]
  rfl

theorem sign (ht : sign? c = some t) (h : Lexes text ts) : Lexes (c :: text) (t :: ts) :=
  token (p := [c]) (fun _ => token?_sign ht) h

theorem space (h : Lexes text ts) : Lexes (' ' :: text) ts := by
  intro rest hrest
  rw [List.cons_append, tokens?, if_pos (by decide), h _ hrest]

theorem arrow (h : Lexes text ts) : Lexes ('=' :: '>' :: text) (.arrow :: ts) :=
  token (p := ['=', '>']) (fun _ => rfl) h

theorem name {x : String} (h : isName x.toList = true) : Lexes x.toList [.name x] := by
  intro rest hrest
  have hread := readName?_append h hrest
  cases hx : x.toList with
  | nil =>
    rw [hx] at h
    cases h
  | cons c cs =>
    rw [hx] at h hread
    have hstart : isNameStart c = true := (Bool.and_eq_true_iff.1 h).1
    have hnumber : readNumber? (c :: cs ++ rest) = none := by
      rw [readNumber?, List.cons_append, List.takeWhile_cons_of_neg (by simp [isDigit_eq_false_of_isNameStart hstart])]
    have htoken : token? (c :: cs ++ rest) = some (.name x, rest) := by
      rw [List.cons_append] at hnumber hread ⊢
      rw [token?_word (isNameChar_of_isNameStart hstart), hnumber, hread, ← hx]
      simp
    exact tokens?_of_token? htoken

theorem number (n : Nat) : Lexes (Nat.repr n).toList [.number n] := by
  intro rest hrest
  have hstop : ∀ c ∈ rest.head?, c.isDigit = false := by
    intro c hc
    rw [Bool.eq_false_iff]
    intro hdigit
    cases (hrest c hc).symm.trans (isNameChar_of_isDigit hdigit)
  have hread := readNumber?_repr n hstop
  cases hn : (Nat.repr n).toList with
  | nil => exact absurd hn (by rw [Nat.toList_repr]; exact Nat.toDigits_ne_nil)
  | cons c cs =>
    have hdigit : c.isDigit = true := by
      refine Nat.isDigit_of_mem_toDigits (b := 10) (n := n) (by decide) (by decide) ?_
      rw [← Nat.toList_repr, hn]
      exact List.mem_cons_self
    have htoken : token? (c :: cs ++ rest) = some (.number n, rest) := by
      rw [hn] at hread
      rw [List.cons_append] at hread ⊢
      rw [token?_word (isNameChar_of_isDigit hdigit), hread]
    exact tokens?_of_token? htoken

theorem quote (s : String) : Lexes (Text.quote s).toList [.text s] := by
  have hread : ∀ more, token? ((Text.quote s).toList ++ more) = some (.text s, more) := fun more => by
    have hread := readString?_quote s more
    rw [Text.quote, String.toList_ofList, List.cons_append] at hread ⊢
    rw [token?, if_pos rfl, show readQuoted? _ = _ from hread, Option.map_some]
    dsimp only
    rw [String.ofList_toList]
  have h := token hread Lexes.nil
  rwa [List.append_nil] at h

end Lexes

/-! ## Texts that read as expressions -/

/-- **Whether a text reads as an expression** wherever an expression may start, if what follows does not go on with a name. -/
def ReadsAs (text : String) (e : Expr) : Prop :=
  ∃ ts, Lexes text.toList ts ∧ ∀ frames more, parse? frames none (ts ++ more) = parse? frames (some e) more

namespace ReadsAs

variable {text body x s : String} {e f : Expr}

theorem name (hx : isName x.toList = true) : ReadsAs x (.name x) :=
  ⟨[.name x], Lexes.name hx, fun _ _ => rfl⟩

theorem member (h : ReadsAs text e) (hx : isName x.toList = true) : ReadsAs (text ++ "." ++ x) (.member e x) := by
  obtain ⟨ts, hlexes, hparse⟩ := h
  have htext : (text ++ "." ++ x).toList = text.toList ++ '.' :: x.toList := by simp
  refine ⟨ts ++ [.dot, .name x], ?_, fun frames more => ?_⟩
  · rw [htext]
    exact hlexes.append ((Lexes.name hx).sign rfl) (head_sign rfl)
  · rw [List.append_assoc, hparse]
    rfl

theorem index (h : ReadsAs text e) : ReadsAs (text ++ "[" ++ Text.quote s ++ "]") (.index e (.text s)) := by
  obtain ⟨ts, hlexes, hparse⟩ := h
  have htext : (text ++ "[" ++ Text.quote s ++ "]").toList = text.toList ++ '[' :: ((Text.quote s).toList ++ [']']) := by simp
  have hend : Lexes [']'] [.closing] := Lexes.nil.sign rfl
  refine ⟨ts ++ .opening :: ([.text s] ++ [.closing]), ?_, fun frames more => ?_⟩
  · rw [htext]
    exact hlexes.append (Lexes.sign rfl ((Lexes.quote s).append hend (head_sign rfl))) (head_sign rfl)
  · rw [List.append_assoc, hparse]
    rfl

/-- **A map over a value reads as the call**, with the body in the function. -/
theorem map (h : ReadsAs text e) (hx : isName x.toList = true) (hbody : ReadsAs body f) :
    ReadsAs (text ++ ".map((" ++ x ++ ": any) => " ++ body ++ ")") (.call (.member e "map") (.function x f)) := by
  obtain ⟨ts, hlexes, hparse⟩ := h
  obtain ⟨us, hlexes', hparse'⟩ := hbody
  -- from the end on: the body, the arrow before it, the parameter with its type, and the method
  have hend : Lexes (body.toList ++ [')']) (us ++ [.right]) :=
    hlexes'.append (Lexes.nil.sign rfl) (head_sign rfl)
  have harrow := hend.space.arrow.space.sign (c := ')') rfl
  have htype := (((Lexes.name (x := "any") (by decide)).append harrow (head_sign rfl)).space).sign (c := ':') rfl
  have hfunction := ((Lexes.name hx).append htype (head_sign rfl)).sign (c := '(') rfl
  have hcall := ((Lexes.name (x := "map") (by decide)).append (hfunction.sign (c := '(') rfl) (head_sign rfl)).sign
    (c := '.') rfl
  have htext : (text ++ ".map((" ++ x ++ ": any) => " ++ body ++ ")").toList =
      text.toList ++ '.' :: ("map".toList ++ '(' :: '(' :: (x.toList ++ ':' :: ' ' :: ("any".toList ++
        ')' :: ' ' :: '=' :: '>' :: ' ' :: (body.toList ++ [')'])))) := by simp
  refine ⟨_, htext ▸ hlexes.append hcall (head_sign rfl), fun frames more => ?_⟩
  rw [List.append_assoc, hparse]
  change parse? (.body x :: .argument (.member e "map") :: frames) none (us ++ [.right] ++ more) = _
  rw [List.append_assoc, hparse']
  rfl

end ReadsAs

theorem read?_of_readsAs {text : String} {e : Expr} (h : ReadsAs text e) : read? text = some e := by
  obtain ⟨ts, hlexes, hparse⟩ := h
  have htokens := hlexes [] (by simp)
  rw [List.append_nil] at htokens
  rw [read?, htokens, tokens?]
  exact hparse [] []

end Script
end TypedClient
