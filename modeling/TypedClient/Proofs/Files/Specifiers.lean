import Mathlib.Data.List.Induction
import TypedClient.Emit.Specifier
import TypedClient.Proofs.Lists
import TypedClient.Proofs.Pointer
/-!
# Specifiers — where the specifier of a module leads

A specifier is read from the directory of the importing file: its parts are entered one by one, and the suffix of module files
is put behind.  The parts that the two paths do not share make up the specifier, so it leads back to the target, whatever the
names on the way.  What the names can spoil is its beginning: a name that begins with a dot passes for a step, and the `./` is
left out (`specifier_leadsBack_iff`).
-/
namespace TypedClient

namespace Text

theorem splitBy_eq_splitOn (mark : Char) : ∀ cs : List Char, splitBy (· == mark) cs = cs.splitOn mark
  | [] => rfl
  | c :: rest => by
    rw [List.splitOn, List.splitOnP_cons_eq_if_modifyHead, splitBy, splitBy_eq_splitOn mark rest, List.splitOn]
    refine ite_congr rfl (fun _ => rfl) fun _ => ?_
    cases hparts : rest.splitOnP (· == mark) with
    | nil => exact absurd hparts (List.splitOnP_ne_nil _ rest)
    | cons part more => rfl

/-- The parts of a path, joined, are the path. -/
theorem intercalate_splitAt (text : String) : "/".intercalate (splitAt '/' text) = text := by
  rw [← String.toList_inj, String.toList_intercalate, splitAt, List.map_map, splitBy_eq_splitOn]
  have hid : (String.toList ∘ String.ofList) = id := funext fun _ => String.toList_ofList
  rw [hid, List.map_id]
  exact List.intercalate_splitOn '/'

/-- Parts that are joined to a path are its parts. -/
theorem splitAt_intercalate {parts : List String} (hne : parts ≠ []) (h : ∀ part ∈ parts, '/' ∉ part.toList) :
    splitAt '/' ("/".intercalate parts) = parts := by
  have hslash : ∀ cs ∈ parts.map String.toList, '/' ∉ cs := List.forall_mem_map.2 h
  rw [splitAt, splitBy_eq_splitOn, String.toList_intercalate]
  refine (congrArg _ (List.splitOn_intercalate '/' hslash (by simpa using hne))).trans ?_
  rw [List.map_map]
  have hid : (String.ofList ∘ String.toList) = id := funext fun _ => String.ofList_toList
  rw [hid, List.map_id]

theorem slash_not_mem_of_mem_splitAt {text part : String} (h : part ∈ splitAt '/' text) : '/' ∉ part.toList := by
  obtain ⟨cs, hcs, rfl⟩ := List.mem_map.1 h
  rw [String.toList_ofList]
  exact fun hslash => absurd (mem_of_mem_splitBy hcs '/' hslash).2 (by decide)

theorem splitAt_ne_nil (mark : Char) (text : String) : splitAt mark text ≠ [] :=
  fun h => splitBy_ne_nil _ _ (List.map_eq_nil_iff.1 h)

/-- A part more in front. -/
theorem splitAt_cons {part : String} (h : '/' ∉ part.toList) (rest : String) :
    splitAt '/' (part ++ "/" ++ rest) = part :: splitAt '/' rest := by
  have hjoined : "/".intercalate (part :: splitAt '/' rest) = part ++ "/" ++ rest := by
    rw [String.intercalate_cons_of_ne_nil (splitAt_ne_nil _ _), intercalate_splitAt]
  rw [← hjoined]
  exact splitAt_intercalate (List.cons_ne_nil _ _)
    (List.forall_mem_cons.2 ⟨h, fun _ hpart => slash_not_mem_of_mem_splitAt hpart⟩)

theorem exists_joined (front : List String) : ∃ before : String, ∀ last, "/".intercalate (front ++ [last]) = before ++ last := by
  obtain ⟨before, hbefore⟩ := exists_intercalate_concat ['/'] (front.map String.toList)
  refine ⟨String.ofList before, fun last => String.toList_inj.1 ?_⟩
  have hchars : (String.ofList before).toList = before := String.toList_ofList
  rw [String.toList_intercalate, List.map_append, List.map_singleton, String.toList_append, hchars]
  exact hbefore last.toList

/-- What is put behind a path is put behind its last part. -/
theorem exists_splitAt_append {tail : String} (h : '/' ∉ tail.toList) (text : String) : ∃ dirs last,
    splitAt '/' (text ++ tail) = dirs ++ [last ++ tail] := by
  obtain ⟨dirs, last, hparts⟩ := (List.eq_nil_or_concat' (splitAt '/' text)).resolve_left (splitAt_ne_nil _ _)
  obtain ⟨before, hbefore⟩ := exists_joined dirs
  have hslash : ∀ part ∈ dirs ++ [last], '/' ∉ part.toList :=
    fun part hpart => slash_not_mem_of_mem_splitAt (hparts ▸ hpart)
  rw [List.forall_mem_append, List.forall_mem_singleton] at hslash
  refine ⟨dirs, last, ?_⟩
  rw [← intercalate_splitAt text, hparts, hbefore, String.append_assoc, ← hbefore]
  refine splitAt_intercalate (by simp) (List.forall_mem_append.2 ⟨hslash.1, List.forall_mem_singleton.2 ?_⟩)
  rw [String.toList_append, List.mem_append, not_or]
  exact ⟨hslash.2, h⟩

theorem startsWith_iff {text start : String} : startsWith text start = true ↔ ∃ rest, text = start ++ rest := by
  rw [startsWith, List.isPrefixOf_iff_prefix]
  constructor
  · rintro ⟨rest, hrest⟩
    refine ⟨String.ofList rest, String.toList_inj.1 ?_⟩
    rw [String.toList_append, String.toList_ofList, hrest]
  · rintro ⟨rest, rfl⟩
    rw [String.toList_append]
    exact List.prefix_append _ _

theorem endsWith_iff {text tail : String} : endsWith text tail = true ↔ ∃ front, text = front ++ tail := by
  rw [endsWith, List.isSuffixOf_iff_suffix]
  constructor
  · rintro ⟨front, hfront⟩
    refine ⟨String.ofList front, String.toList_inj.1 ?_⟩
    rw [String.toList_append, String.toList_ofList, hfront]
  · rintro ⟨front, rfl⟩
    rw [String.toList_append]
    exact List.suffix_append _ _

theorem startsWith_dot {text : String} : startsWith text "." = true ↔ text.toList.head? = some '.' := by
  have hdot : ".".toList = ['.'] := rfl
  rw [startsWith, List.isPrefixOf_iff_prefix, hdot, List.singleton_prefix_iff_head?_eq_some]

end Text

namespace Emit

variable {a b part stem : String} {way up names : List String}

/-- A part of a path that is the name of a file or directory. -/
structure IsName (part : String) : Prop where
  nonempty : part ≠ ""
  here : part ≠ "."
  above : part ≠ ".."

instance (part : String) : Decidable (IsName part) :=
  decidable_of_iff (part ≠ "" ∧ part ≠ "." ∧ part ≠ "..") ⟨fun h => ⟨h.1, h.2.1, h.2.2⟩, fun h => ⟨h.1, h.2, h.3⟩⟩

/-- **The path of a module**: relative, without empty parts and steps, and with the suffix of module files. -/
structure IsModulePath (path : String) : Prop where
  named : ∀ part ∈ Text.splitAt '/' path, IsName part
  suffixed : Text.endsWith path moduleSuffix = true

instance (path : String) : Decidable (IsModulePath path) :=
  decidable_of_iff ((∀ part ∈ Text.splitAt '/' path, IsName part) ∧ Text.endsWith path moduleSuffix = true)
    ⟨fun h => ⟨h.1, h.2⟩, fun h => ⟨h.1, h.2⟩⟩

/-- The parts of the directory of a file. -/
def directory (path : String) : List String :=
  (Text.splitAt '/' path).dropLast

/-- One part of a path entered from a directory: `..` goes up, where there is something to leave. -/
def enterPart (way : List String) (part : String) : List String :=
  if part = "" ∨ part = "." then way
  else if part = ".." ∧ way ≠ [] ∧ way.getLast? ≠ some ".." then way.dropLast
  else way ++ [part]

/-- The path of a directory. -/
def wayText (way : List String) : String :=
  if way = [] then "." else "/".intercalate way

/-- **The module that a specifier stands for** in the file `source`. -/
def located (source specifier : String) : String :=
  wayText ((directory source ++ Text.splitAt '/' specifier).foldl enterPart []) ++ moduleSuffix

/-- Whether a specifier begins with a step. -/
def Stepped (specifier : String) : Prop :=
  Text.startsWith specifier "./" = true ∨ Text.startsWith specifier "../" = true

instance (specifier : String) : Decidable (Stepped specifier) :=
  inferInstanceAs (Decidable (_ ∨ _))

/-! ## Entering -/

theorem IsName.enter (h : IsName part) (way : List String) : enterPart way part = way ++ [part] := by
  rw [enterPart, if_neg (by simp [h.nonempty, h.here]), if_neg (by simp [h.above])]

theorem enter_names (h : ∀ part ∈ names, IsName part) (way : List String) : names.foldl enterPart way = way ++ names := by
  induction names generalizing way with
  | nil => exact (List.append_nil way).symm
  | cons part names ih =>
    rw [List.foldl_cons, (h part List.mem_cons_self).enter, ih fun p hp => h p (List.mem_cons_of_mem _ hp),
      List.append_assoc, List.singleton_append]

theorem enter_above (h : IsName part) (way : List String) : enterPart (way ++ [part]) ".." = way := by
  have hlast : ".." = ".." ∧ way ++ [part] ≠ [] ∧ (way ++ [part]).getLast? ≠ some ".." := by
    refine ⟨rfl, List.append_ne_nil_of_right_ne_nil way (List.cons_ne_nil part []), ?_⟩
    rw [List.getLast?_concat]
    exact fun heq => h.above (Option.some.inj heq)
  rw [enterPart, if_neg (by decide), if_pos hlast, List.dropLast_concat]

/-- As many steps up as there are names leave them. -/
theorem enter_climb (h : ∀ part ∈ up, IsName part) (way : List String) :
    (List.replicate up.length "..").foldl enterPart (way ++ up) = way := by
  induction up using List.reverseRecOn with
  | nil => exact List.append_nil way
  | append_singleton up part ih =>
    rw [List.length_append, List.length_singleton, List.replicate_succ, List.foldl_cons, ← List.append_assoc,
      enter_above (h part (by simp)), ih fun p hp => h p (List.mem_append_left _ hp)]

theorem placeOf_names (h : ∀ part ∈ names, IsName part) : placeOf names = ⟨0, names⟩ := by
  have hfold : ∀ (absolute : Bool) (names : List String) (place : Place), (∀ part ∈ names, IsName part) →
      names.foldl (Place.enter absolute) place = { place with parts := place.parts ++ names } := by
    intro absolute names
    induction names with
    | nil => exact fun place _ => by rw [List.append_nil]; rfl
    | cons part names ih =>
      intro place h
      have hpart := h part List.mem_cons_self
      have henter : place.enter absolute part = { place with parts := place.parts ++ [part] } := by
        rw [Place.enter, if_neg (by simp [hpart.nonempty, hpart.here]), if_neg hpart.above]
      rw [List.foldl_cons, henter, ih _ fun p hp => h p (List.mem_cons_of_mem _ hp), List.append_assoc,
        List.singleton_append]
  exact hfold _ names ⟨0, []⟩ h

/-! ## The way from one to the other -/

/-- **What two lists share at the front** is dropped from both, and no more of them is shared. -/
theorem dropCommon_eq (xs ys : List String) : ∃ common up down, xs = common ++ up ∧ ys = common ++ down ∧
    dropCommon xs ys = (up, down) ∧ ∀ x y, up.head? = some x → down.head? = some y → x ≠ y := by
  fun_induction dropCommon xs ys with
  | case1 xs x ys ih =>
    obtain ⟨common, up, down, hxs, hys, hdrop, hdiffer⟩ := ih
    exact ⟨x :: common, up, down, by rw [hxs, List.cons_append], by rw [hys, List.cons_append], hdrop, hdiffer⟩
  | case2 x xs y ys hne =>
    refine ⟨[], x :: xs, y :: ys, rfl, rfl, rfl, fun x' y' hx hy => ?_⟩
    rw [← Option.some.inj hx, ← Option.some.inj hy]
    exact hne
  | case3 xs ys hcons =>
    refine ⟨[], xs, ys, rfl, rfl, rfl, fun x y hx hy => ?_⟩
    obtain ⟨xs', rfl⟩ := List.head?_eq_some_iff.1 hx
    obtain ⟨ys', rfl⟩ := List.head?_eq_some_iff.1 hy
    exact absurd rfl (hcons x xs' y ys' rfl)

/-! ## The text of a specifier -/

theorem dropModuleSuffix_append (before : String) : dropModuleSuffix (before ++ moduleSuffix) = before := by
  rw [dropModuleSuffix, if_pos (Text.endsWith_iff.2 ⟨before, rfl⟩), String.length_append, Nat.add_sub_cancel,
    String.toList_append, ← String.length_toList, List.take_left, String.ofList_toList]

/-- The suffix of the last part is the suffix of the path. -/
theorem dropModuleSuffix_joined (front : List String) (stem : String) :
    dropModuleSuffix ("/".intercalate (front ++ [stem ++ moduleSuffix])) = "/".intercalate (front ++ [stem]) := by
  obtain ⟨before, hbefore⟩ := Text.exists_joined front
  rw [hbefore, hbefore, ← String.append_assoc, dropModuleSuffix_append]

theorem dropModuleSuffix_climb (n : Nat) :
    dropModuleSuffix (wayText (List.replicate n "..")) = wayText (List.replicate n "..") := by
  rw [dropModuleSuffix, if_neg]
  -- the suffix does not end with a dot
  intro hends
  obtain ⟨front, hfront⟩ := Text.endsWith_iff.1 hends
  have hlast : (wayText (List.replicate n "..")).toList.getLast? = some 's' := by
    rw [hfront, String.toList_append, List.getLast?_append]
    rfl
  cases n with
  | zero => exact absurd hlast (by decide)
  | succ n =>
    obtain ⟨before, hbefore⟩ := Text.exists_joined (List.replicate n "..")
    rw [List.replicate_succ', wayText, if_neg (by simp), hbefore, String.toList_append, List.getLast?_append] at hlast
    exact absurd (Option.some.inj hlast) (by decide)

/-- The specifier of what is found under a path: a step is put in front unless one seems to be there. -/
def fromHere (path : String) : String :=
  if Text.startsWith path "." then path else "./" ++ path

theorem specifier?_eq {down : List String} (ha : ∀ part ∈ directory a, IsName part) (hb : IsModulePath b)
    (hdrop : dropCommon (directory a) (Text.splitAt '/' b) = (up, down)) :
    specifier? a b = some (fromHere (dropModuleSuffix (wayText (List.replicate up.length ".." ++ down)))) := by
  have hne : b ≠ "" := by
    rintro rfl
    exact (hb.named "" (by decide)).nonempty rfl
  have hsteps : stepsBetween (placeOf (Text.splitAt '/' a).dropLast) (placeOf (Text.splitAt '/' b)) =
      List.replicate up.length ".." ++ down := by
    have hdirectory : placeOf (Text.splitAt '/' a).dropLast = ⟨0, (Text.splitAt '/' a).dropLast⟩ := placeOf_names ha
    rw [hdirectory, placeOf_names hb.named, stepsBetween, if_pos rfl]
    dsimp only
    rw [show dropCommon (Text.splitAt '/' a).dropLast (Text.splitAt '/' b) = (up, down) from hdrop]
  rw [specifier?, if_neg hne]
  dsimp only
  rw [hsteps]
  rfl

/-! ## Where a specifier leads -/

/-- A path is entered as its parts are. -/
theorem enter_wayText (hslash : ∀ part ∈ names, '/' ∉ part.toList) (way : List String) :
    (Text.splitAt '/' (wayText names)).foldl enterPart way = names.foldl enterPart way := by
  rw [wayText]
  split
  · rename_i hnil
    rw [hnil]
    rfl
  · rename_i hne
    rw [Text.splitAt_intercalate hne hslash]

theorem enter_fromHere (path : String) (way : List String) :
    (Text.splitAt '/' (fromHere path)).foldl enterPart way = (Text.splitAt '/' path).foldl enterPart way := by
  rw [fromHere]
  split
  · rfl
  · rw [show "./" ++ path = "." ++ "/" ++ path from rfl, Text.splitAt_cons (by decide)]
    rfl

/-- **A specifier leads** up to what both paths share, and down from there. -/
theorem located_fromHere {common : List String} (ha : directory a = common ++ up) (hnames : ∀ part ∈ directory a, IsName part)
    (hslash : ∀ part ∈ names, '/' ∉ part.toList) :
    located a (fromHere (wayText (List.replicate up.length ".." ++ names))) =
      wayText (names.foldl enterPart common) ++ moduleSuffix := by
  have hup : ∀ part ∈ up, IsName part := fun part hpart => hnames part (ha ▸ List.mem_append_right common hpart)
  have hsteps : ∀ part ∈ List.replicate up.length ".." ++ names, '/' ∉ part.toList := by
    refine List.forall_mem_append.2 ⟨fun part hpart => ?_, hslash⟩
    rw [List.eq_of_mem_replicate hpart]
    decide
  rw [located, List.foldl_append, enter_fromHere, enter_wayText hsteps, enter_names hnames, List.nil_append, ha,
    List.foldl_append, enter_climb hup]

/-- A specifier begins with a step if it has two parts at least, and the first one is a step. -/
theorem stepped_iff {specifier : String} : Stepped specifier ↔
    ∃ first second rest, Text.splitAt '/' specifier = first :: second :: rest ∧ (first = "." ∨ first = "..") := by
  have hbegins : ∀ step : String, '/' ∉ step.toList → (Text.startsWith specifier (step ++ "/") = true ↔
      ∃ second rest, Text.splitAt '/' specifier = step :: second :: rest) := by
    intro step hstep
    rw [Text.startsWith_iff]
    constructor
    · rintro ⟨behind, rfl⟩
      obtain ⟨second, rest, hrest⟩ := List.exists_cons_of_ne_nil (Text.splitAt_ne_nil '/' behind)
      exact ⟨second, rest, by rw [Text.splitAt_cons hstep, hrest]⟩
    · rintro ⟨second, rest, hparts⟩
      refine ⟨"/".intercalate (second :: rest), ?_⟩
      rw [← String.intercalate_cons_of_ne_nil (List.cons_ne_nil _ _), ← hparts, Text.intercalate_splitAt]
  constructor
  · rintro (hhere | habove)
    · obtain ⟨second, rest, hparts⟩ := (hbegins "." (by decide)).1 hhere
      exact ⟨".", second, rest, hparts, .inl rfl⟩
    · obtain ⟨second, rest, hparts⟩ := (hbegins ".." (by decide)).1 habove
      exact ⟨"..", second, rest, hparts, .inr rfl⟩
  · rintro ⟨first, second, rest, hparts, rfl | rfl⟩
    · exact .inl ((hbegins "." (by decide)).2 ⟨second, rest, hparts⟩)
    · exact .inr ((hbegins ".." (by decide)).2 ⟨second, rest, hparts⟩)

/-- A path begins with a dot if its first part does. -/
theorem head?_joined {first : String} (rest : List String) :
    ("/".intercalate (first :: rest)).toList.head? = some '.' ↔ first.toList.head? = some '.' := by
  cases rest with
  | nil => rw [String.intercalate_singleton]
  | cons second rest =>
    rw [String.intercalate_cons_of_ne_nil (List.cons_ne_nil _ _), String.toList_append, String.toList_append,
      List.append_assoc, List.head?_append]
    cases first.toList with
    | nil => exact ⟨fun h => absurd h (by simp), nofun⟩
    | cons c cs => exact Iff.rfl

/-- **A specifier begins with a step** if the path below has a step in front, or its first part does not begin with a dot. -/
theorem stepped_fromHere {front : List String} (hnames : ∀ part ∈ front, IsName part)
    (hslash : ∀ part ∈ front ++ [stem], '/' ∉ part.toList) (n : Nat) :
    Stepped (fromHere ("/".intercalate (List.replicate n ".." ++ (front ++ [stem])))) ↔
      (n = 0 → ∀ first, (front ++ [stem]).head? = some first → first.toList.head? ≠ some '.') := by
  have hparts : Text.splitAt '/' ("/".intercalate (List.replicate n ".." ++ (front ++ [stem]))) =
      List.replicate n ".." ++ (front ++ [stem]) := by
    refine Text.splitAt_intercalate (by simp) fun part hpart => ?_
    rcases List.mem_append.1 hpart with habove | hbelow
    · rw [List.eq_of_mem_replicate habove]
      decide
    · exact hslash part hbelow
  cases n with
  | succ n =>
    refine iff_of_true ?_ nofun
    have hdotted : Text.startsWith ("/".intercalate (List.replicate (n + 1) ".." ++ (front ++ [stem]))) "." = true := by
      rw [Text.startsWith_dot, List.replicate_succ, List.cons_append, head?_joined]
      decide
    rw [fromHere, if_pos hdotted, stepped_iff, hparts, List.replicate_succ, List.cons_append]
    obtain ⟨second, rest, hrest⟩ := List.exists_cons_of_ne_nil (l := List.replicate n ".." ++ (front ++ [stem])) (by simp)
    exact ⟨"..", second, rest, by rw [hrest], .inr rfl⟩
  | zero =>
    rw [List.replicate_zero, List.nil_append] at hparts ⊢
    obtain ⟨first, rest, hrest⟩ := List.exists_cons_of_ne_nil (l := front ++ [stem]) (by simp)
    have hdotted : Text.startsWith ("/".intercalate (front ++ [stem])) "." = true ↔ first.toList.head? = some '.' := by
      rw [Text.startsWith_dot, hrest, head?_joined]
    rw [fromHere]
    split
    · rename_i hstarts
      refine iff_of_false ?_ fun h => h rfl first (by rw [hrest]; rfl) (hdotted.1 hstarts)
      rw [stepped_iff, hparts]
      rintro ⟨step, second, more, heq, hstep⟩
      -- the first of two parts is a name, and no name is a step
      have hname : IsName step := by
        cases front with
        | nil => cases heq
        | cons part front => exact (List.cons.inj heq).1 ▸ hnames part List.mem_cons_self
      exact hstep.elim hname.here hname.above
    · rename_i hstarts
      refine iff_of_true (.inl (Text.startsWith_iff.2 ⟨_, rfl⟩)) fun _ first' hfirst hdot' => hstarts (hdotted.2 ?_)
      rw [hrest, List.head?_cons] at hfirst
      exact Option.some.inj hfirst ▸ hdot'

theorem length_joined_lt {front : List String} (hne : front ≠ []) (last : String) :
    ("/".intercalate front).length < ("/".intercalate (front ++ [last])).length := by
  rw [String.intercalate_append_of_ne_nil hne (List.cons_ne_nil _ _), String.length_append, String.length_append]
  have hslash : "/".length = 1 := rfl
  omega

/-- No step leads from a directory to a file in it: the way would be longer than its text. -/
theorem wayText_ne_joined {front : List String} (hnames : ∀ part ∈ front, IsName part) (hne : front ≠ [])
    (hstem : stem = "" ∨ stem = "." ∨ stem = "..") :
    wayText (enterPart front stem) ≠ "/".intercalate (front ++ [stem]) := by
  intro heq
  have hlonger := length_joined_lt hne stem
  rw [← heq] at hlonger
  refine absurd hlonger (Nat.not_lt.2 ?_)
  rcases or_assoc.2 hstem with hstay | rfl
  · have hsame : wayText (enterPart front stem) = "/".intercalate front := by
      rw [enterPart, if_pos hstay, wayText, if_neg hne]
    exact Nat.le_of_eq (congrArg String.length hsame)
  · obtain ⟨dirs, last, rfl⟩ := (List.eq_nil_or_concat' front).resolve_left hne
    have hlast : IsName last := hnames last (by simp)
    rw [enter_above hlast, wayText]
    split
    · rename_i hnil
      rw [hnil, List.nil_append, String.intercalate_singleton]
      exact Nat.one_le_iff_ne_zero.2 fun hzero => hlast.nonempty (String.length_eq_zero_iff.1 hzero)
    · rename_i hdirs
      exact Nat.le_of_lt (length_joined_lt hdirs last)

/-- **The module without its suffix** is found again, unless its name without it is none or seems to be a step. -/
theorem wayText_enter_iff {front : List String} (hnames : ∀ part ∈ front, IsName part) :
    wayText (enterPart front stem) ++ moduleSuffix = "/".intercalate (front ++ [stem ++ moduleSuffix]) ↔
      stem ≠ "" ∧ (stem = "." ∨ stem = ".." → front = []) := by
  obtain ⟨before, hbefore⟩ := Text.exists_joined front
  rw [hbefore, ← String.append_assoc, ← String.toList_inj, String.toList_append, String.toList_append, List.append_left_inj,
    String.toList_inj, ← hbefore]
  by_cases hstem : stem = "" ∨ stem = "." ∨ stem = ".."
  · by_cases hfront : front = []
    · subst hfront
      rcases hstem with rfl | rfl | rfl <;> decide
    · refine iff_of_false (wayText_ne_joined hnames hfront hstem) fun h => ?_
      exact hfront (h.2 (hstem.resolve_left h.1))
  · obtain ⟨hempty, hhere, habove⟩ : stem ≠ "" ∧ stem ≠ "." ∧ stem ≠ ".." := by simpa only [not_or] using hstem
    have hname : IsName stem := ⟨hempty, hhere, habove⟩
    refine iff_of_true ?_ ⟨hempty, fun hstep => (hstep.elim hhere habove).elim⟩
    rw [hname.enter, wayText, if_neg (by simp)]

/-! ## Specifiers that lead back -/

/-- **When a specifier leads back.** -/
structure LeadsBack (a b : String) : Prop where
  /-- The module is no directory on the way to the importing file. -/
  outside : ¬ Text.splitAt '/' b <+: directory a
  /-- What leads down from the directory of the importing file does not begin with a dot. -/
  undotted : ∀ first more, Text.splitAt '/' b = directory a ++ first :: more → first.toList.head? ≠ some '.'
  /-- The name of the module without its suffix is none of those that stand for a step. -/
  named : ∀ dirs stem, Text.splitAt '/' b = dirs ++ [stem ++ moduleSuffix] →
    stem ≠ "" ∧ (stem = "." ∨ stem = ".." → dirs = [])

/-- The first part keeps its dot when the suffix of the module is left out. -/
theorem head?_stem (front : List String) (hstem : stem ≠ "") {first : String}
    (h : (front ++ [stem ++ moduleSuffix]).head? = some first) :
    ∃ first', (front ++ [stem]).head? = some first' ∧ first.toList.head? = first'.toList.head? := by
  cases front with
  | cons part front => exact ⟨part, rfl, by rw [← Option.some.inj h]⟩
  | nil =>
    refine ⟨stem, rfl, ?_⟩
    obtain ⟨c, cs, hcs⟩ := List.exists_cons_of_ne_nil fun hnil => hstem (String.toList_eq_nil_iff.1 hnil)
    rw [← Option.some.inj h, String.toList_append, hcs]
    rfl

theorem leadsBack_iff {common front : List String} (ha : directory a = common ++ up)
    (hb : Text.splitAt '/' b = common ++ (front ++ [stem ++ moduleSuffix]))
    (hdiffer : ∀ x y, up.head? = some x → (front ++ [stem ++ moduleSuffix]).head? = some y → x ≠ y) :
    LeadsBack a b ↔ (up.length = 0 → ∀ first, (front ++ [stem]).head? = some first → first.toList.head? ≠ some '.') ∧
      stem ≠ "" ∧ (stem = "." ∨ stem = ".." → common ++ front = []) := by
  have hdirs : ∀ dirs stem', Text.splitAt '/' b = dirs ++ [stem' ++ moduleSuffix] ↔ common ++ front = dirs ∧ stem = stem' := by
    intro dirs stem'
    rw [hb, ← List.append_assoc, ← List.concat_eq_append, ← List.concat_eq_append, List.concat_inj, ← String.toList_inj,
      String.toList_append, String.toList_append, List.append_left_inj, String.toList_inj]
  obtain ⟨first, rest, hdown⟩ := List.exists_cons_of_ne_nil (l := front ++ [stem ++ moduleSuffix]) (by simp)
  have hfirst : (front ++ [stem ++ moduleSuffix]).head? = some first := by
    rw [hdown]
    rfl
  rw [hdown] at hdiffer hb
  constructor
  · intro h
    have hnamed := h.named (common ++ front) stem ((hdirs _ _).2 ⟨rfl, rfl⟩)
    refine ⟨fun hzero first' hfirst' hdot => ?_, hnamed⟩
    rw [List.length_eq_zero_iff.1 hzero, List.append_nil] at ha
    obtain ⟨first'', hfirst'', hhead⟩ := head?_stem front hnamed.1 hfirst
    cases hfirst'.symm.trans hfirst''
    exact h.undotted first rest (ha ▸ hb) (hhead.trans hdot)
  · rintro ⟨hundotted, hnamed⟩
    refine ⟨fun hprefix => ?_, fun first' more hparts hdot => ?_, fun dirs stem' hparts => ?_⟩
    · rw [ha, hb, List.prefix_append_right_inj] at hprefix
      obtain ⟨behind, hbehind⟩ := hprefix
      exact hdiffer first first (by rw [← hbehind]; rfl) rfl rfl
    · rw [ha, hb, List.append_assoc, List.append_cancel_left_eq] at hparts
      cases up with
      | cons x up => exact hdiffer x first rfl rfl (List.cons.inj hparts).1.symm
      | nil =>
        obtain ⟨first'', hfirst'', hhead⟩ := head?_stem front hnamed.1 hfirst
        exact hundotted rfl first'' hfirst'' (hhead ▸ (List.cons.inj hparts).1 ▸ hdot)
    · obtain ⟨rfl, rfl⟩ := (hdirs dirs stem').1 hparts
      exact hnamed

/-- **A specifier leads back exactly if no name on the way is mistaken for a step.** -/
theorem specifier_leadsBack_iff (ha : IsModulePath a) (hb : IsModulePath b) : ∃ specifier, specifier? a b = some specifier ∧
    (Stepped specifier ∧ located a specifier = b ↔ LeadsBack a b) := by
  have hdirs : ∀ part ∈ directory a, IsName part := fun part hpart => ha.named part (List.dropLast_subset _ hpart)
  obtain ⟨common, up, down, hsource, htarget, hdrop, hdiffer⟩ := dropCommon_eq (directory a) (Text.splitAt '/' b)
  refine ⟨_, specifier?_eq hdirs hb hdrop, ?_⟩
  rcases List.eq_nil_or_concat' down with rfl | ⟨front, name, rfl⟩
  · -- the way is all steps up, and ends at the path of the module, a directory
    rw [List.append_nil, dropModuleSuffix_climb]
    have hnone : ∀ part ∈ ([] : List String), '/' ∉ part.toList := nofun
    have hhere := located_fromHere hsource hdirs hnone
    rw [List.append_nil] at hhere htarget
    refine iff_of_false (fun h => ?_) fun h => h.outside ⟨up, by rw [htarget, hsource]⟩
    have hlength := congrArg String.length (hhere.symm.trans h.2)
    rw [List.foldl_nil, wayText, if_neg (htarget ▸ Text.splitAt_ne_nil _ _), ← htarget, Text.intercalate_splitAt,
      String.length_append] at hlength
    exact absurd hlength (Nat.ne_of_gt (Nat.lt_add_of_pos_right (by decide)))
  · obtain ⟨stem, rfl⟩ : ∃ stem, name = stem ++ moduleSuffix := by
      obtain ⟨text, rfl⟩ := Text.endsWith_iff.1 hb.suffixed
      have hsuffix : '/' ∉ moduleSuffix.toList := by decide
      obtain ⟨dirs, stem, hparts⟩ := Text.exists_splitAt_append hsuffix text
      rw [htarget, ← List.append_assoc] at hparts
      exact ⟨stem, List.singleton_inj.1 (List.append_inj' hparts rfl).2⟩
    have hcommon : ∀ part ∈ common, IsName part := fun part hpart => hb.named part (by rw [htarget]; simp [hpart])
    have hfront : ∀ part ∈ front, IsName part := fun part hpart => hb.named part (by rw [htarget]; simp [hpart])
    have hslash : ∀ part ∈ front ++ [stem], '/' ∉ part.toList := by
      have hparts : ∀ part ∈ front ++ [stem ++ moduleSuffix], '/' ∉ part.toList := fun part hpart =>
        Text.slash_not_mem_of_mem_splitAt (htarget ▸ List.mem_append_right common hpart)
      rw [List.forall_mem_append, List.forall_mem_singleton] at hparts ⊢
      exact ⟨hparts.1, fun hmem => hparts.2 (by rw [String.toList_append]; exact List.mem_append_left _ hmem)⟩
    have htext : dropModuleSuffix (wayText (List.replicate up.length ".." ++ (front ++ [stem ++ moduleSuffix]))) =
        wayText (List.replicate up.length ".." ++ (front ++ [stem])) := by
      rw [wayText, wayText, if_neg (by simp), if_neg (by simp), ← List.append_assoc, dropModuleSuffix_joined,
        List.append_assoc]
    have hjoined : b = "/".intercalate ((common ++ front) ++ [stem ++ moduleSuffix]) := by
      rw [List.append_assoc, ← htarget, Text.intercalate_splitAt]
    rw [leadsBack_iff hsource htarget hdiffer, htext, located_fromHere hsource hdirs hslash, List.foldl_append,
      enter_names hfront, List.foldl_cons, List.foldl_nil]
    refine and_congr ?_ ?_
    · rw [wayText, if_neg (by simp)]
      exact stepped_fromHere hfront hslash up.length
    · rw [← wayText_enter_iff (List.forall_mem_append.2 ⟨hcommon, hfront⟩), ← hjoined]

/-- A directory with a dot in front is named without harm by who stands beside it. -/
theorem specifier_leadsBack_beside :
    IsModulePath "apis/DefaultApi.ts" ∧ IsModulePath ".shared/definitions.ts" ∧
    ∃ specifier, specifier? "apis/DefaultApi.ts" ".shared/definitions.ts" = some specifier ∧
      (Stepped specifier ∧ located "apis/DefaultApi.ts" specifier = ".shared/definitions.ts" ↔
        LeadsBack "apis/DefaultApi.ts" ".shared/definitions.ts") :=
  ⟨by decide, by decide, specifier_leadsBack_iff (by decide) (by decide)⟩

/-- **A directory with a dot in front passes for a step** to who stands above it: the specifier begins with its name. -/
theorem specifier_dotted_below :
    IsModulePath "index.ts" ∧ IsModulePath ".apis/DefaultApi.ts" ∧
    specifier? "index.ts" ".apis/DefaultApi.ts" = some ".apis/DefaultApi" ∧ ¬ Stepped ".apis/DefaultApi" := by
  decide

end Emit
end TypedClient
