import TypedClient.Proofs.Grammar.Tokens
/-!
# Reading — what the text of a type is read as

`&` binds tighter than `|`: a text is read as a union of intersections of factors, and a factor is an atom, a generic type
with its argument, or a type in parentheses.  So the reading of texts with `|` between them is the row of their alternatives
(`read?_bar`), while `&` joins the last alternative of one text with the first of the next and leaves the others alone
(`read?_amp`).
-/
namespace TypedClient
namespace Grammar

/-- A part of an intersection. -/
inductive Factor where
  | atom (text : String)
  /-- A generic type with its argument. -/
  | applied (head : String) (argument : List (List Factor))
  /-- A type in parentheses. -/
  | group (inner : List (List Factor))

/-- **What a text is read as**: its alternatives, each with the factors that it is the intersection of. -/
abbrev Reading := List (List Factor)

/-- What a level of brackets is for: the whole text, the argument of a generic type, or parentheses. -/
inductive Opening where
  | text
  | argument (head : String)
  | group

/-- A level that is being read: the alternatives that have ended, the factors of the next one before the last `&`, and the
factor behind that, once it is there. -/
structure Level where
  opening : Opening
  ended : Reading
  factors : List Factor
  last? : Option Factor

namespace Level

/-- A level of which nothing is read. -/
def start (opening : Opening) : Level := ⟨opening, [], [], none⟩

/-- What the level is read as, if it may end here. -/
def reading? (l : Level) : Option Reading :=
  l.last?.map fun f => l.ended ++ [l.factors ++ [f]]

end Level

/-- **Reads a token**, with the levels that are open, the inmost first; `none` where the token may not stand. -/
def feed : List Level → Token → Option (List Level)
  | l :: outer, .atom w =>
    match l.last? with
    | none => some ({ l with last? := some (.atom w) } :: outer)
    | some _ => none
  | l :: outer, .bar =>
    l.last?.map fun f => { l with ended := l.ended ++ [l.factors ++ [f]], factors := [], last? := none } :: outer
  | l :: outer, .amp =>
    l.last?.map fun f => { l with factors := l.factors ++ [f], last? := none } :: outer
  | l :: outer, .less =>
    match l.last? with
    | some (.atom w) => some (.start (.argument w) :: { l with last? := none } :: outer)
    | _ => none
  | l :: outer, .left =>
    match l.last? with
    | none => some (.start .group :: l :: outer)
    | some _ => none
  | l :: m :: outer, .greater =>
    match l.opening, l.reading? with
    | .argument w, some r => some ({ m with last? := some (.applied w r) } :: outer)
    | _, _ => none
  | l :: m :: outer, .right =>
    match l.opening, l.reading? with
    | .group, some r => some ({ m with last? := some (.group r) } :: outer)
    | _, _ => none
  | _, _ => none

/-- **The reading of a row of tokens.** -/
def parse? (ts : List Token) : Option Reading :=
  match ts.foldlM feed [.start .text] with
  | some [l] => l.reading?
  | _ => none

/-- **The reading of a text**, `none` if it is no type. -/
def read? (text : String) : Option Reading :=
  (scan? text).bind parse?

/-- The reading of two texts with `&` between them. -/
def Reading.meet : Reading → Reading → Reading
  | [], s => s
  | [i], [] => [i]
  | [i], j :: s => (i ++ j) :: s
  | i :: j :: r, s => i :: Reading.meet (j :: r) s

variable {l m base : Level} {outer below : List Level} {ts us : List Token} {r s : Reading}

/-! ## A text inside of another

What is read from the start of a text on is read in the same way behind an operator or a bracket: the first alternative
goes on with the factors that stand there, and the levels below are left alone. -/

/-- What is read, behind what was read of the level before. -/
def Level.behind (base l : Level) : Level :=
  match l.ended with
  | [] => ⟨base.opening, base.ended, base.factors ++ l.factors, l.last?⟩
  | i :: is => ⟨base.opening, base.ended ++ (base.factors ++ i) :: is, l.factors, l.last?⟩

/-- The levels that are read, the last of them behind what was read of it before, with the levels below. -/
def behind (base : Level) (below : List Level) : List Level → List Level
  | [] => below
  | [l] => base.behind l :: below
  | l :: m :: outer => l :: behind base below (m :: outer)

@[simp] theorem behind_cons_cons : behind base below (l :: m :: outer) = l :: behind base below (m :: outer) := rfl

namespace Level

@[simp] theorem behind_last? : (base.behind l).last? = l.last? := by
  unfold behind
  split <;> rfl

theorem behind_start (h : base.last? = none) (o : Opening) : base.behind (start o) = base := by
  obtain ⟨opening, ended, factors, last?⟩ := base
  cases h
  simp [behind, start]

theorem behind_set (f? : Option Factor) : base.behind { l with last? := f? } = { base.behind l with last? := f? } := by
  unfold behind
  cases l.ended <;> rfl

theorem behind_amp (f : Factor) : base.behind { l with factors := l.factors ++ [f], last? := none } =
    { base.behind l with factors := (base.behind l).factors ++ [f], last? := none } := by
  unfold behind
  cases l.ended with
  | nil => simp
  | cons i is => rfl

theorem behind_bar (f : Factor) :
    base.behind { l with ended := l.ended ++ [l.factors ++ [f]], factors := [], last? := none } =
    { base.behind l with
      ended := (base.behind l).ended ++ [(base.behind l).factors ++ [f]], factors := [], last? := none } := by
  unfold behind
  cases l.ended with
  | nil => simp
  | cons i is => simp

end Level

/-- **A token that may stand in a text may stand there in a longer one.** -/
theorem feed_behind {t : Token} {levels levels' : List Level} (h : feed levels t = some levels') :
    feed (behind base below levels) t = some (behind base below levels') := by
  cases levels with
  | nil => cases t <;> cases h
  | cons l outer =>
    -- a token changes the inmost level and the one around it; only the last level of all stands behind `base`
    cases t with
    | atom w =>
      cases hl : l.last? <;> simp only [feed, hl] at h <;> cases h
      cases outer with
      | nil => simp [behind, feed, hl, Level.behind_set]
      | cons m outer => simp [feed, hl]
    | bar =>
      cases hl : l.last? <;> simp only [feed, hl, Option.map_none, Option.map_some] at h <;> cases h
      cases outer with
      | nil => simp [behind, feed, hl, Level.behind_bar]
      | cons m outer => simp [feed, hl]
    | amp =>
      cases hl : l.last? <;> simp only [feed, hl, Option.map_none, Option.map_some] at h <;> cases h
      cases outer with
      | nil => simp [behind, feed, hl, Level.behind_amp]
      | cons m outer => simp [feed, hl]
    | left =>
      cases hl : l.last? <;> simp only [feed, hl] at h <;> cases h
      cases outer with
      | nil => simp [behind, feed, hl]
      | cons m outer => simp [feed, hl]
    | less =>
      simp only [feed] at h
      split at h
      · rename_i w hl
        cases h
        cases outer with
        | nil => simp [behind, feed, hl, Level.behind_set]
        | cons m outer => simp [feed, hl]
      · cases h
    | greater =>
      cases outer with
      | nil => cases h
      | cons m outer =>
        simp only [feed] at h
        split at h
        · rename_i w r ho hr
          cases h
          cases outer with
          | nil => simp [behind, feed, ho, hr, Level.behind_set]
          | cons k outer => simp [feed, ho, hr]
        · cases h
    | right =>
      cases outer with
      | nil => cases h
      | cons m outer =>
        simp only [feed] at h
        split at h
        · rename_i r ho hr
          cases h
          cases outer with
          | nil => simp [behind, feed, ho, hr, Level.behind_set]
          | cons k outer => simp [feed, ho, hr]
        · cases h

theorem foldlM_behind (base : Level) (below : List Level) : ∀ {ts : List Token} {levels levels' : List Level},
    ts.foldlM feed levels = some levels' → ts.foldlM feed (behind base below levels) = some (behind base below levels')
  | [], levels, levels', h => by
    cases h
    rfl
  | t :: ts, levels, levels', h => by
    rw [List.foldlM_cons] at h ⊢
    obtain ⟨next, hnext, h⟩ := Option.bind_eq_some_iff.1 h
    exact Option.bind_eq_some_iff.2 ⟨_, feed_behind hnext, foldlM_behind base below h⟩

/-! ## Tokens in a row -/

namespace Level

theorem reading?_eq_some : l.reading? = some r ↔ ∃ f, l.last? = some f ∧ l.ended ++ [l.factors ++ [f]] = r :=
  Option.map_eq_some_iff

theorem reading?_behind (h : l.reading? = some r) :
    (base.behind l).reading? = some (base.ended ++ Reading.meet [base.factors] r) := by
  obtain ⟨f, hf, rfl⟩ := reading?_eq_some.1 h
  unfold behind
  cases l.ended <;> simp [reading?, hf, Reading.meet]

theorem behind_opening : (base.behind l).opening = base.opening := by
  unfold behind
  split <;> rfl

end Level

theorem parse?_eq_some : parse? ts = some r ↔ ∃ l, ts.foldlM feed [.start .text] = some [l] ∧ l.reading? = some r := by
  unfold parse?
  split
  · rename_i l hl
    rw [hl]
    simp
  · rename_i hne
    exact ⟨nofun, fun ⟨l, hl, _⟩ => absurd hl (hne l)⟩

/-- **Tokens that have a reading are read so at the beginning of a level**, or behind an operator in it. -/
theorem foldlM_of_parse? (h : parse? ts = some r) (base : Level) (below : List Level) (hbase : base.last? = none) :
    ∃ l, ts.foldlM feed (base :: below) = some (l :: below) ∧ l.opening = base.opening ∧
      l.reading? = some (base.ended ++ Reading.meet [base.factors] r) := by
  obtain ⟨l, hl, hr⟩ := parse?_eq_some.1 h
  have hrun := foldlM_behind base below hl
  simp only [behind] at hrun
  rw [Level.behind_start hbase] at hrun
  exact ⟨base.behind l, hrun, Level.behind_opening, Level.reading?_behind hr⟩

theorem parse?_ne_nil (h : parse? ts = some r) : r ≠ [] := by
  obtain ⟨l, -, hr⟩ := parse?_eq_some.1 h
  obtain ⟨f, -, rfl⟩ := Level.reading?_eq_some.1 hr
  simp

namespace Reading

theorem meet_concat (is : Reading) (i : List Factor) (s : Reading) : meet (is ++ [i]) s = is ++ meet [i] s := by
  induction is with
  | nil => rfl
  | cons j js ih =>
    cases js with
    | nil => rfl
    | cons k ks => exact congrArg (j :: ·) ih

theorem meet_nil_factors (h : s ≠ []) : meet [[]] s = s := by
  cases s with
  | nil => exact absurd rfl h
  | cons j js => rfl

end Reading

/-- **The alternatives around `|`** are those of both sides. -/
theorem parse?_bar (hr : parse? ts = some r) (hs : parse? us = some s) : parse? (ts ++ .bar :: us) = some (r ++ s) := by
  obtain ⟨l, hl, hlr⟩ := parse?_eq_some.1 hr
  obtain ⟨f, hf, hended⟩ := Level.reading?_eq_some.1 hlr
  have hbar : feed [l] .bar = some [⟨l.opening, r, [], none⟩] := by simp [feed, hf, hended]
  obtain ⟨l', hl', -, hls⟩ := foldlM_of_parse? hs ⟨l.opening, r, [], none⟩ [] rfl
  rw [Reading.meet_nil_factors (parse?_ne_nil hs)] at hls
  refine parse?_eq_some.2 ⟨l', ?_, hls⟩
  rw [List.foldlM_append, hl, Option.bind_eq_bind, Option.bind_some, List.foldlM_cons, hbar]
  exact hl'

/-- **The alternatives next to `&`** become one. -/
theorem parse?_amp (hr : parse? ts = some r) (hs : parse? us = some s) :
    parse? (ts ++ .amp :: us) = some (r.meet s) := by
  obtain ⟨l, hl, hlr⟩ := parse?_eq_some.1 hr
  obtain ⟨f, hf, rfl⟩ := Level.reading?_eq_some.1 hlr
  have hamp : feed [l] .amp = some [⟨l.opening, l.ended, l.factors ++ [f], none⟩] := by simp [feed, hf]
  obtain ⟨l', hl', -, hls⟩ := foldlM_of_parse? hs ⟨l.opening, l.ended, l.factors ++ [f], none⟩ [] rfl
  rw [← Reading.meet_concat] at hls
  refine parse?_eq_some.2 ⟨l', ?_, hls⟩
  rw [List.foldlM_append, hl, Option.bind_eq_bind, Option.bind_some, List.foldlM_cons, hamp]
  exact hl'

/-- **The argument of a generic type** is read on its own. -/
theorem parse?_argument (w : String) (hr : parse? ts = some r) :
    parse? (.atom w :: .less :: ts ++ [.greater]) = some [[.applied w r]] := by
  obtain ⟨l, hl, ho, hls⟩ := foldlM_of_parse? hr (.start (.argument w)) [.start .text] rfl
  have hread : l.reading? = some r := by
    rw [hls]
    exact congrArg some (Reading.meet_nil_factors (parse?_ne_nil hr))
  have hend : feed [l, .start .text] .greater = some [{ Level.start .text with last? := some (.applied w r) }] := by
    simp [feed, ho, hread, Level.start]
  refine parse?_eq_some.2 ⟨{ Level.start .text with last? := some (.applied w r) }, ?_, rfl⟩
  change (ts ++ [Token.greater]).foldlM feed [.start (.argument w), .start .text] = _
  rw [List.foldlM_append, hl, Option.bind_eq_bind, Option.bind_some, List.foldlM_cons, hend]
  rfl

/-! ## Texts -/

variable {text a b : String}

theorem read?_eq_some : read? text = some r ↔ ∃ ts, scan? text = some ts ∧ parse? ts = some r :=
  Option.bind_eq_some_iff

theorem IsAtom.read? (h : IsAtom text) : read? text = some [[.atom text]] :=
  read?_eq_some.2 ⟨_, h.scan?, rfl⟩

/-- **The reading of an array's type** holds that of its items. -/
theorem read?_array (h : read? text = some r) : read? ("Array<" ++ text ++ ">") = some [[.applied "Array" r]] := by
  obtain ⟨ts, hts, hr⟩ := read?_eq_some.1 h
  exact read?_eq_some.2 ⟨_, scan?_array hts, parse?_argument "Array" hr⟩

theorem read?_bar (ha : read? a = some r) (hb : read? b = some s) : read? (a ++ " | " ++ b) = some (r ++ s) := by
  obtain ⟨ts, hts, hr⟩ := read?_eq_some.1 ha
  obtain ⟨us, hus, hs⟩ := read?_eq_some.1 hb
  exact read?_eq_some.2 ⟨_, scan?_operator (c := '|') (fun _ => rfl) hts hus, parse?_bar hr hs⟩

theorem read?_amp (ha : read? a = some r) (hb : read? b = some s) : read? (a ++ " & " ++ b) = some (r.meet s) := by
  obtain ⟨ts, hts, hr⟩ := read?_eq_some.1 ha
  obtain ⟨us, hus, hs⟩ := read?_eq_some.1 hb
  exact read?_eq_some.2 ⟨_, scan?_operator (c := '&') (fun _ => rfl) hts hus, parse?_amp hr hs⟩

/-- The reading of texts with `&` between them. -/
def Reading.meets : List Reading → Reading
  | [] => []
  | [r] => r
  | r :: s :: rest => r.meet (Reading.meets (s :: rest))

/-- Whether the texts are read as these readings. -/
abbrev ReadAs (texts : List String) (readings : List Reading) : Prop :=
  List.Forall₂ (fun text r => read? text = some r) texts readings

/-- **The reading of a union** is the row of its members' alternatives. -/
theorem read?_union : ∀ {texts : List String} {readings : List Reading}, ReadAs texts readings → texts ≠ [] →
    read? (" | ".intercalate texts) = some readings.flatten
  | [], _, _, hne => absurd rfl hne
  | [text], _, .cons h .nil, _ => by simpa using h
  | text :: next :: texts, _, .cons h hrest, _ => by
    rw [String.intercalate_cons_cons, List.flatten_cons]
    exact read?_bar h (read?_union hrest (List.cons_ne_nil _ _))

/-- **The reading of an intersection** joins the members' readings where they meet. -/
theorem read?_both : ∀ {texts : List String} {readings : List Reading}, ReadAs texts readings → texts ≠ [] →
    read? (" & ".intercalate texts) = some (Reading.meets readings)
  | [], _, _, hne => absurd rfl hne
  | [text], _, .cons h .nil, _ => by simpa [Reading.meets] using h
  | text :: next :: texts, _, .cons h hrest, _ => by
    have ih := read?_both hrest (List.cons_ne_nil _ _)
    cases hrest with
    | cons hnext hmore =>
      rw [String.intercalate_cons_cons]
      exact read?_amp h ih

example : read? "A | B & Array<C | D>" =
    some [[.atom "A"], [.atom "B", .applied "Array" [[.atom "C"], [.atom "D"]]]] := rfl

example : read? "(A | B) & \"C | D\"" = some [[.group [[.atom "A"], [.atom "B"]], .atom "\"C | D\""]] := rfl

end Grammar
end TypedClient
