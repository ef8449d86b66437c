import Mathlib.Data.List.Forall2
import TypedClient.Proofs.Script.Expressions
/-!
# Conditions — comparisons of the printed language, read and evaluated

A condition is a run of comparisons with `&&` between them.  What is compared are fields of named values, whole parts of their
quotients, numbers and texts; anything else is refused.  Texts that read as comparisons, put together with `&&`, read as the
condition of these comparisons (`readCondition?_intercalate`).
-/
namespace TypedClient
namespace Script

/-- What a comparison compares. -/
inductive Operand where
  | number (n : Nat)
  | text (text : String)
  /-- The field of a value that has a name. -/
  | field (name key : String)
  /-- `Math.floor` of such a field over a number. -/
  | floor (name key : String) (divisor : Nat)
  deriving DecidableEq

structure Comparison where
  left : Operand
  /-- `===`, and not `!==`. -/
  equal : Bool
  right : Operand
  deriving DecidableEq

/-- Comparisons that all have to hold. -/
structure Condition where
  comparisons : List Comparison
  deriving DecidableEq

/-! ## Reading -/

/-- Reads the argument of `Math.floor`. -/
def quotient? : List Token → Option (Operand × List Token)
  | .left :: .name x :: .dot :: .name key :: .over :: .number n :: .right :: ts => some (.floor x key n, ts)
  | _ => none

def operand? : List Token → Option (Operand × List Token)
  | .number n :: ts => some (.number n, ts)
  | .text s :: ts => some (.text s, ts)
  | .name x :: .dot :: .name key :: ts => if x = "Math" ∧ key = "floor" then quotient? ts else some (.field x key, ts)
  | _ => none

/-- Whether a token asks for equal values, none if it asks for something else. -/
def relation? : Token → Option Bool
  | .same => some true
  | .differs => some false
  | _ => none

def comparison? (ts : List Token) : Option Comparison :=
  match operand? ts with
  | some (left, sign :: rest) =>
    match relation? sign, operand? rest with
    | some equal, some (right, []) => some ⟨left, equal, right⟩
    | _, _ => none
  | _ => none

/-- **The condition that a text is**, if it is one of the fragment. -/
def readCondition? (text : String) : Option Condition :=
  (tokens? text.toList).bind fun ts => ((ts.splitOn .both).mapM comparison?).map .mk

/-! ## Values -/

variable (named : String → Option Node)

/-- **The value of an operand** where names have values. -/
def Operand.value? : Operand → Option Node
  | .number n => some (.int n)
  | .text s => some (.str s)
  | .field x key => (named x).bind (·.get? key)
  | .floor x key divisor =>
    match (named x).bind (·.get? key) with
    | some (.int n) => if divisor = 0 then none else some (.int (n / divisor))
    | _ => none

/-- Whether numbers or texts are strictly equal: a number and a text are not. -/
def strictlyEqual? : Node → Node → Option Bool
  | .int m, .int n => some (m == n)
  | .str s, .str t => some (s == t)
  | .int _, .str _ | .str _, .int _ => some false
  | _, _ => none

def Comparison.value? (c : Comparison) : Option Bool :=
  match c.left.value? named, c.right.value? named with
  | some v, some w => (strictlyEqual? v w).map (· == c.equal)
  | _, _ => none

/-- **The value of a condition**: it is true if all its comparisons are. -/
def Condition.value? (c : Condition) : Option Bool :=
  (c.comparisons.mapM (Comparison.value? named)).map (·.all id)

variable {named}

/-- Where every comparison says whether something holds, the condition says whether all of it does. -/
theorem Condition.value?_map {α : Type} {holds : α → Bool} {comparison : α → Comparison} : ∀ {xs : List α},
    (∀ x ∈ xs, (comparison x).value? named = some (holds x)) →
    (Condition.mk (xs.map comparison)).value? named = some (xs.all holds)
  | [], _ => rfl
  | x :: xs, h => by
    have hrest := value?_map fun y hy => h y (List.mem_cons_of_mem _ hy)
    obtain ⟨values, hvalues, hall⟩ := Option.map_eq_some_iff.1 hrest
    dsimp only at hvalues
    simp [Condition.value?, h x List.mem_cons_self, hvalues, hall]

/-! ## Texts that read as conditions -/

variable {text left right : String} {o o' : Operand} {c : Comparison}

/-- Whether a text reads as an operand, whatever tokens follow. -/
def Operand.Reads (text : String) (o : Operand) : Prop :=
  ∃ ts, Lexes text.toList ts ∧ .both ∉ ts ∧ ∀ more, operand? (ts ++ more) = some (o, more)

/-- Whether a text reads as a comparison. -/
def Comparison.Reads (text : String) (c : Comparison) : Prop :=
  ∃ ts, Lexes text.toList ts ∧ .both ∉ ts ∧ comparison? ts = some c

namespace Operand

theorem reads_number (n : Nat) : Reads (Nat.repr n) (.number n) :=
  ⟨[.number n], Lexes.number n, by simp, fun _ => rfl⟩

theorem reads_text (s : String) : Reads (Text.quote s) (.text s) :=
  ⟨[.text s], Lexes.quote s, by simp, fun _ => rfl⟩

theorem reads_field {x k : String} (hx : isName x.toList = true) (hk : isName k.toList = true)
    (hmath : ¬ (x = "Math" ∧ k = "floor")) : Reads (x ++ "." ++ k) (.field x k) := by
  have htext : (x ++ "." ++ k).toList = x.toList ++ '.' :: k.toList := by simp
  refine ⟨[.name x] ++ .dot :: [.name k], ?_, by simp, fun more => ?_⟩
  · rw [htext]
    exact (Lexes.name hx).append ((Lexes.name hk).sign rfl) (head_sign rfl)
  · change operand? (.name x :: .dot :: .name k :: more) = _
    rw [operand?, if_neg hmath]

theorem reads_floor {x k : String} (hx : isName x.toList = true) (hk : isName k.toList = true) (n : Nat) :
    Reads ("Math.floor(" ++ x ++ "." ++ k ++ " / " ++ Nat.repr n ++ ")") (.floor x k n) := by
  have htext : ("Math.floor(" ++ x ++ "." ++ k ++ " / " ++ Nat.repr n ++ ")").toList = "Math".toList ++ '.' ::
      ("floor".toList ++ '(' :: (x.toList ++ '.' :: (k.toList ++ ' ' :: '/' :: ' ' :: ((Nat.repr n).toList ++ [')'])))) := by
    simp
  -- from the end on: the number, the field before it, and the function
  have hnumber := (((Lexes.number n).append (Lexes.nil.sign (c := ')') rfl) (head_sign rfl)).space.sign (c := '/') rfl).space
  have hfield := ((Lexes.name hk).append hnumber head_space).sign (c := '.') rfl
  have hargument := ((Lexes.name hx).append hfield (head_sign rfl)).sign (c := '(') rfl
  have hfloor := ((Lexes.name (x := "floor") (by decide)).append hargument (head_sign rfl)).sign (c := '.') rfl
  have hmath := (Lexes.name (x := "Math") (by decide)).append hfloor (head_sign rfl)
  rw [← htext] at hmath
  refine ⟨_, hmath, by simp, fun more => ?_⟩
  change operand? (.name "Math" :: .dot :: .name "floor" :: (_ ++ more)) = _
  rw [operand?, if_pos ⟨rfl, rfl⟩]
  rfl

end Operand

namespace Comparison

/-- Operands with a sign between them read as the comparison that the sign asks for. -/
theorem reads {m : List Char} {t : Token} {equal : Bool} (hleft : o.Reads left) (hright : o'.Reads right)
    (hmark : ∀ more, token? (m ++ more) = some (t, more)) (ht : relation? t = some equal) :
    Reads (left ++ String.ofList (' ' :: (m ++ [' '])) ++ right) ⟨o, equal, o'⟩ := by
  obtain ⟨ts, hlexes, hboth, hread⟩ := hleft
  obtain ⟨us, hlexes', hboth', hread'⟩ := hright
  have htext : (left ++ String.ofList (' ' :: (m ++ [' '])) ++ right).toList =
      left.toList ++ ' ' :: (m ++ ' ' :: right.toList) := by simp
  refine ⟨ts ++ t :: us, ?_, ?_, ?_⟩
  · rw [htext]
    exact hlexes.append (Lexes.token hmark hlexes'.space).space head_space
  · have htoken : Token.both ≠ t := by
      rintro rfl
      cases ht
    simp [hboth, hboth', htoken]
  · have hright := hread' []
    rw [List.append_nil] at hright
    rw [comparison?, hread]
    simp only [ht, hright]

theorem reads_same (hleft : o.Reads left) (hright : o'.Reads right) : Reads (left ++ " === " ++ right) ⟨o, true, o'⟩ :=
  reads hleft hright (m := ['=', '=', '=']) (fun _ => rfl) rfl

theorem reads_differs (hleft : o.Reads left) (hright : o'.Reads right) : Reads (left ++ " !== " ++ right) ⟨o, false, o'⟩ :=
  reads hleft hright (m := ['!', '=', '=']) (fun _ => rfl) rfl

end Comparison

/-- Texts of comparisons with `&&` between them have the tokens of the comparisons with that sign between them. -/
theorem lexes_intercalate : ∀ {texts : List String} {cs : List Comparison}, List.Forall₂ Comparison.Reads texts cs →
    texts ≠ [] → ∃ tss : List (List Token), Lexes (" && ".intercalate texts).toList ([.both].intercalate tss) ∧ tss ≠ [] ∧
      (∀ ts ∈ tss, .both ∉ ts) ∧ tss.mapM comparison? = some cs
  | _, _, .nil, h => absurd rfl h
  | [text], [c], .cons hc .nil, _ => by
    obtain ⟨ts, hlexes, hboth, hread⟩ := hc
    refine ⟨[ts], ?_, by simp, by simpa using hboth, by simp [hread]⟩
    rwa [String.intercalate_singleton, List.intercalate_singleton]
  | text :: next :: texts, c :: cs, .cons hc hrest, _ => by
    obtain ⟨ts, hlexes, hboth, hread⟩ := hc
    obtain ⟨tss, hlexes', hne, hboth', hread'⟩ := lexes_intercalate hrest (List.cons_ne_nil _ _)
    have htext : (" && ".intercalate (text :: next :: texts)).toList =
        text.toList ++ ' ' :: ('&' :: '&' :: ' ' :: (" && ".intercalate (next :: texts)).toList) := by
      rw [String.intercalate_cons_cons]
      simp
    refine ⟨ts :: tss, ?_, by simp, by simpa using ⟨hboth, hboth'⟩, by simp [hread, hread']⟩
    rw [htext, List.intercalate_cons_of_ne_nil hne]
    have hand := (Lexes.token (p := ['&', '&']) (t := .both) (fun _ => rfl) hlexes'.space).space
    simpa using hlexes.append hand head_space

/-- **Texts of comparisons with `&&` between them read as the condition of the comparisons.** -/
theorem readCondition?_intercalate {texts : List String} {cs : List Comparison}
    (h : List.Forall₂ Comparison.Reads texts cs) (hne : texts ≠ []) :
    readCondition? (" && ".intercalate texts) = some ⟨cs⟩ := by
  obtain ⟨tss, hlexes, htss, hboth, hread⟩ := lexes_intercalate h hne
  have htokens := hlexes [] (by simp)
  rw [List.append_nil, tokens?, Option.map_some, List.append_nil] at htokens
  rw [readCondition?, htokens, Option.bind_some, List.splitOn_intercalate _ hboth htss, hread]
  rfl

end Script
end TypedClient
