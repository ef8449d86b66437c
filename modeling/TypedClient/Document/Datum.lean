import TypedClient.Document.Atom
/-!
# Datum — values as trees

A datum is an atom, or a list, mapping, set or pair of data.  Where a list, mapping or pair would contain itself, the datum
says only that it comes again.
-/
namespace TypedClient

/-- The containers that can contain themselves. -/
inductive Container where
  | list
  | map
  | pair
  deriving DecidableEq, Inhabited

/-- A value as a tree.  The keys of a mapping and the members of a set are atoms. -/
inductive Datum where
  | atom (a : Atom)
  | list (items : List Datum)
  | map (entries : List (Atom × Datum))
  | set (members : List Atom)
  | pair (first second : Datum)
  /-- A container inside itself. -/
  | again (container : Container)
  deriving Inhabited

namespace Datum

mutual
/-- Equality of data as trees. -/
def decEq : (a b : Datum) → Decidable (a = b)
  | .atom a, .atom b => decidable_of_iff (a = b) (by simp)
  | .list a, .list b =>
    match decEqItems a b with
    | isTrue h => isTrue (by rw [h])
    | isFalse h => isFalse (by simp [h])
  | .map a, .map b =>
    match decEqEntries a b with
    | isTrue h => isTrue (by rw [h])
    | isFalse h => isFalse (by simp [h])
  | .set a, .set b => decidable_of_iff (a = b) (by simp)
  | .pair a b, .pair c d =>
    match decEq a c, decEq b d with
    | isTrue h, isTrue k => isTrue (by rw [h, k])
    | isFalse h, _ => isFalse (by simp [h])
    | _, isFalse k => isFalse (by simp [k])
  | .again a, .again b => decidable_of_iff (a = b) (by simp)
  | .atom _, .list _ | .atom _, .map _ | .atom _, .set _ | .atom _, .pair .. | .atom _, .again _
  | .list _, .atom _ | .list _, .map _ | .list _, .set _ | .list _, .pair .. | .list _, .again _
  | .map _, .atom _ | .map _, .list _ | .map _, .set _ | .map _, .pair .. | .map _, .again _
  | .set _, .atom _ | .set _, .list _ | .set _, .map _ | .set _, .pair .. | .set _, .again _
  | .pair .., .atom _ | .pair .., .list _ | .pair .., .map _ | .pair .., .set _ | .pair .., .again _
  | .again _, .atom _ | .again _, .list _ | .again _, .map _ | .again _, .set _ | .again _, .pair .. =>
    isFalse (by simp)

def decEqItems : (a b : List Datum) → Decidable (a = b)
  | [], [] => isTrue rfl
  | x :: xs, y :: ys =>
    match decEq x y, decEqItems xs ys with
    | isTrue h, isTrue k => isTrue (by rw [h, k])
    | isFalse h, _ => isFalse (by simp [h])
    | _, isFalse k => isFalse (by simp [k])
  | [], _ :: _ | _ :: _, [] => isFalse (by simp)

def decEqEntries : (a b : List (Atom × Datum)) → Decidable (a = b)
  | [], [] => isTrue rfl
  | (k, x) :: xs, (l, y) :: ys =>
    if h : k = l then
      match decEq x y, decEqEntries xs ys with
      | isTrue hx, isTrue hxs => isTrue (by rw [h, hx, hxs])
      | isFalse hx, _ => isFalse (by simp [hx])
      | _, isFalse hxs => isFalse (by simp [hxs])
    else isFalse (by simp [h])
  | [], _ :: _ | _ :: _, [] => isFalse (by simp)
end

instance : DecidableEq Datum := decEq

/-- Whether a datum counts as true: empty containers do not. -/
def truth : Datum → Bool
  | .atom a => a.truth
  | .list items => !items.isEmpty
  | .map entries => !entries.isEmpty
  | .set members => !members.isEmpty
  | .pair .. | .again _ => true

/-! ## Sameness -/

def subset (a b : List Atom) : Bool :=
  a.all fun x => b.any x.alike

def valueAt? (entries : List (Atom × Datum)) (key : Atom) : Option Datum :=
  (entries.find? fun (k, _) => k.alike key).map (·.2)

mutual
/-- Whether two data inside something are the same: atoms compare as they do there. -/
def alike : Datum → Datum → Bool
  | .atom a, .atom b => a.alike b
  | .list a, .list b => alikeItems a b
  | .map a, .map b => a.length == b.length && alikeEntries a b
  | .set a, .set b => a.length == b.length && subset a b
  | .pair a b, .pair c d => a.alike c && b.alike d
  | .again a, .again b => a == b
  | _, _ => false

def alikeItems : List Datum → List Datum → Bool
  | [], [] => true
  | x :: xs, y :: ys => x.alike y && alikeItems xs ys
  | _, _ => false

def alikeEntries : List (Atom × Datum) → List (Atom × Datum) → Bool
  | [], _ => true
  | (k, x) :: xs, b =>
    (match valueAt? b k with
    | some y => x.alike y
    | none => false) && alikeEntries xs b
end

/-- **Whether two data are the same value.**  Mappings are the same whatever the order of their entries. -/
def same : Datum → Datum → Bool
  | .atom a, .atom b => a.same b
  | a, b => a.alike b

/-! ## Text -/

/-- What stands for a container inside itself. -/
def shownAgain : Container → String
  | .list => "[...]"
  | .map => "\x7b...\x7d"
  | .pair => "(...)"

def shownAtoms? : List Atom → Option (List String)
  | [] => some []
  | x :: xs =>
    match x.shown?, shownAtoms? xs with
    | some s, some ss => some (s :: ss)
    | _, _ => none

mutual
/-- **The datum as diagnostics show it**: strings in quotes, containers with their contents.  There is no text if a number has
more digits than are written. -/
def shown? : Datum → Option String
  | .atom a => a.shown?
  | .list items => (shownItems? items).map fun ss => "[" ++ ", ".intercalate ss ++ "]"
  | .map entries => (shownEntries? entries).map fun ss => "\x7b" ++ ", ".intercalate ss ++ "\x7d"
  | .set [] => some "set()"
  | .set members => (shownAtoms? members).map fun ss => "\x7b" ++ ", ".intercalate ss ++ "\x7d"
  | .pair a b =>
    match a.shown?, b.shown? with
    | some s, some t => some ("(" ++ s ++ ", " ++ t ++ ")")
    | _, _ => none
  | .again container => some (shownAgain container)

def shownItems? : List Datum → Option (List String)
  | [] => some []
  | x :: xs =>
    match x.shown?, shownItems? xs with
    | some s, some ss => some (s :: ss)
    | _, _ => none

def shownEntries? : List (Atom × Datum) → Option (List String)
  | [] => some []
  | (k, x) :: xs =>
    match k.shown?, x.shown?, shownEntries? xs with
    | some s, some t, some ss => some ((s ++ ": " ++ t) :: ss)
    | _, _, _ => none
end

/-- The datum as text: an atom has a text of its own, everything else the text that is shown. -/
def text? : Datum → Option String
  | .atom a => a.text?
  | d => d.shown?

def kind : Datum → String
  | .atom a => a.kind
  | .list _ | .again .list => "list"
  | .map _ | .again .map => "dict"
  | .set _ => "set"
  | .pair .. | .again .pair => "tuple"

end Datum
end TypedClient
