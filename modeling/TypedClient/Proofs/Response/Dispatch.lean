import Mathlib.Data.List.Nodup
import Mathlib.Tactic.IntervalCases
import TypedClient.Operation.Generate
import TypedClient.Proofs.Steps
import TypedClient.Proofs.Pointer
import TypedClient.Proofs.Expansion.Places
import TypedClient.Proofs.Script.Conditions
/-!
# Dispatch — which body is unwrapped for which response

The branches of a method test the status and the media type of the response.  Each status key excludes the more specific keys
that are declared beside it, so that its clauses hold exactly for the responses that it describes best (`holds_iff_best`).  The
text of a condition, read as an expression, has the value of its clauses (`exists_test`); so no two branches are taken
together, and whatever is not unwrapped reaches the end of the method.
-/
namespace TypedClient
namespace Emit

open Script (Comparison Operand readCondition? strictlyEqual?)

/-! ## Status keys -/

/-- What a status key stands for: one status, the statuses with one leading digit, or all that no other key describes. -/
inductive Coverage where
  | one (status : Nat)
  | family (digit : Nat)
  | rest
  deriving DecidableEq

/-- **How status keys are spelled**: three digits from 100 to 599, a digit from 1 to 5 and two `X` of either case, or
`default`. -/
inductive Spells : String → Coverage → Prop where
  | one {n : Nat} (low : 100 ≤ n) (high : n ≤ 599) : Spells (Nat.repr n) (.one n)
  | family {d : Nat} {x y : Char} (low : 1 ≤ d) (high : d ≤ 5) (hx : x = 'X' ∨ x = 'x') (hy : y = 'X' ∨ y = 'x') :
    Spells (String.ofList [Nat.digitChar d, x, y]) (.family d)
  | rest : Spells "default" .rest

namespace Coverage

def rank : Coverage → Nat
  | .one _ => 0
  | .family _ => 1
  | .rest => 2

def clauses (wanted : Bool) : Coverage → List Clause
  | .one n => [.status wanted n]
  | .family d => [.family wanted (Nat.digitChar d)]
  | .rest => []

end Coverage

theorem isNumeral_family {d : Nat} {x y : Char} (low : 1 ≤ d) (high : d ≤ 5) (hx : x = 'X' ∨ x = 'x')
    (hy : y = 'X' ∨ y = 'x') :
    Text.isNumeral (String.ofList [Nat.digitChar d, x, y]) = false ∧
      rangeDigit? (String.ofList [Nat.digitChar d, x, y]) = some (Nat.digitChar d) := by
  interval_cases d <;> rcases hx with rfl | rfl <;> rcases hy with rfl | rfl <;> decide

theorem statusClause_of_spells {key : String} {c : Coverage} (wanted : Bool) (h : Spells key c) :
    statusClause wanted key = .ok (c.clauses wanted) := by
  unfold statusClause
  cases h with
  | @one n low high =>
    have hlt : n < 10 ^ Text.digitLimit := by
      calc n < 10 ^ 3 := by omega
        _ ≤ 10 ^ Text.digitLimit := Nat.pow_le_pow_right (by decide) (by decide)
    rw [Text.isNumeral_repr, Text.readInt?_repr n hlt]
    rfl
  | family low high hx hy =>
    obtain ⟨hn, hr⟩ := isNumeral_family low high hx hy
    rw [hn, hr]
    rfl
  | rest => rfl

theorem statusRank_of_spells {key : String} {c : Coverage} (h : Spells key c) : statusRank key = c.rank := by
  unfold statusRank
  cases h with
  | one low high =>
    rw [Text.isNumeral_repr]
    rfl
  | family low high hx hy =>
    obtain ⟨hn, hr⟩ := isNumeral_family low high hx hy
    rw [hn, hr]
    rfl
  | rest => rfl

theorem Spells.one_bounds {key : String} {n : Nat} (h : Spells key (.one n)) : 100 ≤ n ∧ n ≤ 599 ∧ key = Nat.repr n := by
  cases h with
  | one low high => exact ⟨low, high, rfl⟩

theorem Spells.family_bounds {key : String} {d : Nat} (h : Spells key (.family d)) : 1 ≤ d ∧ d ≤ 5 := by
  cases h with
  | family low high => exact ⟨low, high⟩

theorem digitChar_injective {d e : Nat} (hd : 1 ≤ d ∧ d ≤ 5) (he : 1 ≤ e ∧ e ≤ 5)
    (h : Nat.digitChar d = Nat.digitChar e) : d = e := by
  obtain ⟨hd1, hd5⟩ := hd
  obtain ⟨he1, he5⟩ := he
  interval_cases d <;> interval_cases e <;> first | rfl | exact absurd h (by decide)

theorem spells_unique {key : String} {c c' : Coverage} (h : Spells key c) (h' : Spells key c') : c = c' := by
  have hc : c.clauses true = c'.clauses true :=
    Except.ok.inj ((statusClause_of_spells true h).symm.trans (statusClause_of_spells true h'))
  cases c <;> cases c' <;> simp only [Coverage.clauses, List.cons.injEq, Clause.status.injEq, Clause.family.injEq,
    true_and, and_true, reduceCtorEq, List.nil_eq, Nat.cast_inj] at hc
  case one.one => rw [hc]
  case family.family => rw [digitChar_injective h.family_bounds h'.family_bounds hc]
  case rest.rest => rfl

theorem toDigits_three (n : Nat) (low : 100 ≤ n) (high : n ≤ 999) :
    (Nat.repr n).toList.head? = some (Nat.digitChar (n / 100)) := by
  rw [Nat.toList_repr]
  have h1 := Nat.toDigits_of_base_le (b := 10) (n := n) (by decide) (by omega)
  have h2 := Nat.toDigits_of_base_le (b := 10) (n := n / 10) (by decide) (by omega)
  have h3 := Nat.toDigits_of_lt_base (b := 10) (n := n / 10 / 10) (by omega)
  rw [h1, h2, h3, Nat.div_div_eq_div_mul]
  rfl


/-! ## The best declared key -/

/-- Whether a status is among those that a key stands for. -/
def Coverage.Includes (status : Nat) : Coverage → Prop
  | .one n => status = n
  | .family d => status / 100 = d
  | .rest => True

/-- Whether what a key stands for is taken out of what a less specific one stands for. -/
def Coverage.Narrows : Coverage → Coverage → Prop
  | .one n, .family d => n / 100 = d
  | .one _, .rest | .family _, .rest => True
  | _, _ => False

/-- **The declared key that describes a status best**: the status itself if it is declared, else its range, else `default`. -/
inductive Best (declared : List String) (status : Nat) : String → Prop where
  | one {key : String} (hkey : key ∈ declared) (h : Spells key (.one status)) : Best declared status key
  | family {key : String} (hkey : key ∈ declared) (h : Spells key (.family (status / 100)))
    (hone : ∀ other ∈ declared, ¬ Spells other (.one status)) : Best declared status key
  | rest {key : String} (hkey : key ∈ declared) (h : Spells key .rest)
    (hone : ∀ other ∈ declared, ¬ Spells other (.one status))
    (hfamily : ∀ other ∈ declared, ¬ Spells other (.family (status / 100))) : Best declared status key

/-- Keys that are spelled as status keys are, no two for the same statuses: a range is declared in one spelling. -/
structure WellDeclared (declared : List String) : Prop where
  spelled : ∀ key ∈ declared, ∃ c, Spells key c
  unique : ∀ key ∈ declared, ∀ other ∈ declared, ∀ c, Spells key c → Spells other c → key = other

theorem wellDeclared_of_spells {keys : List (String × Coverage)} (hspells : ∀ k ∈ keys, Spells k.1 k.2)
    (hnodup : (keys.map (·.2)).Nodup) : WellDeclared (keys.map (·.1)) := by
  constructor
  · intro key hm
    obtain ⟨k, hk, rfl⟩ := List.mem_map.1 hm
    exact ⟨k.2, hspells k hk⟩
  · intro key hm other hm' c hc hc'
    obtain ⟨k, hk, rfl⟩ := List.mem_map.1 hm
    obtain ⟨l, hl, rfl⟩ := List.mem_map.1 hm'
    have hsame : k.2 = l.2 := (spells_unique (hspells k hk) hc).trans (spells_unique (hspells l hl) hc').symm
    rw [List.inj_on_of_nodup_map hnodup hk hl hsame]

theorem best_unique {declared : List String} (hd : WellDeclared declared) {status : Nat} {key other : String}
    (h : Best declared status key) (h' : Best declared status other) : key = other := by
  cases h with
  | one hk hs =>
    cases h' with
    | one hk' hs' => exact hd.unique _ hk _ hk' _ hs hs'
    | family _ _ hone | rest _ _ hone _ => exact absurd hs (hone _ hk)
  | family hk hs hone =>
    cases h' with
    | one hk' hs' => exact absurd hs' (hone _ hk')
    | family hk' hs' _ => exact hd.unique _ hk _ hk' _ hs hs'
    | rest _ _ _ hfamily => exact absurd hs (hfamily _ hk)
  | rest hk hs hone hfamily =>
    cases h' with
    | one hk' hs' => exact absurd hs' (hone _ hk')
    | family hk' hs' _ => exact absurd hs' (hfamily _ hk')
    | rest hk' hs' _ _ => exact hd.unique _ hk _ hk' _ hs hs'

/-! ## What the clauses say -/

/-- Whether a clause is about a status that can be, or about a decimal digit. -/
def Clause.Plain : Clause → Prop
  | .status _ code => 0 ≤ code
  | .family _ digit => ∃ d < 10, digit = Nat.digitChar d
  | .media _ => True

theorem Spells.plain {key : String} {c : Coverage} (h : Spells key c) (wanted : Bool) : ∀ x ∈ c.clauses wanted, x.Plain := by
  cases h with
  | one low high => simp [Coverage.clauses, Clause.Plain]
  | @family d _ _ low high => simpa [Coverage.clauses, Clause.Plain] using ⟨d, by omega, rfl⟩
  | rest => simp [Coverage.clauses]

theorem toNat_digitChar {d : Nat} (hd : 1 ≤ d ∧ d ≤ 5) : (Nat.digitChar d).toNat = d + 48 := by
  rw [Nat.toNat_digitChar_of_lt_ten (by omega), Nat.add_comm]

theorem holds_wanted {key : String} {c : Coverage} (h : Spells key c) (status : Nat) (contentType : String) :
    (∀ x ∈ c.clauses true, x.holds status contentType = true) ↔ c.Includes status := by
  cases c with
  | one n => simp [Coverage.clauses, Clause.holds, Coverage.Includes]
  | family d => simp [Coverage.clauses, Clause.holds, Coverage.Includes, toNat_digitChar h.family_bounds]
  | rest => simp [Coverage.clauses, Coverage.Includes]

theorem holds_unwanted {key : String} {c : Coverage} (h : Spells key c) (status : Nat) (contentType : String) :
    (∀ x ∈ c.clauses false, x.holds status contentType = true) ↔ (c.Narrows .rest → ¬ c.Includes status) := by
  cases c with
  | one n => simp [Coverage.clauses, Clause.holds, Coverage.Includes, Coverage.Narrows]
  | family d =>
    simp [Coverage.clauses, Clause.holds, Coverage.Includes, Coverage.Narrows, toNat_digitChar h.family_bounds]
  | rest => simp [Coverage.clauses, Coverage.Narrows]

/-- Excluded keys come to clauses that hold exactly outside of what the keys stand for. -/
theorem statusClauses_of_spells : ∀ keys : List String, (∀ key ∈ keys, ∃ c, Spells key c) →
    ∃ clauses, statusClauses false keys = .ok clauses ∧ (∀ x ∈ clauses, x.Plain) ∧ ∀ status contentType,
      (∀ x ∈ clauses, x.holds status contentType = true) ↔
        ∀ key ∈ keys, ∀ c, Spells key c → c.Narrows .rest → ¬ c.Includes status
  | [], _ => ⟨[], rfl, by simp, fun _ _ => by simp⟩
  | key :: rest, h => by
    obtain ⟨c, hc⟩ := h key List.mem_cons_self
    obtain ⟨clauses, hrest, hplain, hiff⟩ := statusClauses_of_spells rest fun k hk => h k (List.mem_cons_of_mem _ hk)
    refine ⟨c.clauses false ++ clauses, by rw [statusClauses, statusClause_of_spells false hc, hrest]; rfl,
      List.forall_mem_append.2 ⟨hc.plain false, hplain⟩, ?_⟩
    intro status contentType
    have hfirst : (∀ c', Spells key c' → c'.Narrows .rest → ¬ c'.Includes status) ↔
        (c.Narrows .rest → ¬ c.Includes status) :=
      ⟨fun h => h c hc, fun h c' hc' => by rw [spells_unique hc' hc]; exact h⟩
    simp only [List.forall_mem_append, List.forall_mem_cons, holds_unwanted hc, hiff, hfirst]

theorem mem_shadowedBy {key other : String} {c c' : Coverage} {declared : List String} (hkey : Spells key c)
    (hother : Spells other c') (hm : other ∈ declared) : other ∈ shadowedBy key declared ↔ c'.Narrows c := by
  unfold shadowedBy
  rw [statusRank_of_spells hkey]
  cases c with
  | one n => cases c' <;> simp [Coverage.rank, Coverage.Narrows]
  | family d =>
    have hr : rangeDigit? key = some (Nat.digitChar d) := by
      cases hkey with
      | family low high hx hy => exact (isNumeral_family low high hx hy).2
    simp only [Coverage.rank, hr, List.mem_filter, hm, true_and, statusRank_of_spells hother]
    cases c' with
    | one n =>
      obtain ⟨low, high, rfl⟩ := hother.one_bounds
      rw [toDigits_three n low (by omega)]
      simp only [Coverage.Narrows, beq_self_eq_true, Bool.true_and, beq_iff_eq, Option.some.injEq]
      exact ⟨digitChar_injective (by omega) hkey.family_bounds, fun h => by rw [h]⟩
    | family _ | rest => simp [Coverage.Narrows]
  | rest =>
    simp only [Coverage.rank, List.mem_filter, hm, true_and, statusRank_of_spells hother, Bool.and_eq_true, bne_iff_ne,
      decide_eq_true_eq]
    cases c' with
    | one _ | family _ =>
      simp only [Coverage.Narrows, iff_true]
      refine ⟨?_, by decide⟩
      rintro rfl
      cases spells_unique hother hkey
    | rest => simp [Coverage.Narrows]

theorem shadowedBy_subset (key : String) (declared : List String) : shadowedBy key declared ⊆ declared := by
  unfold shadowedBy
  split
  · exact List.nil_subset _
  · split
    · exact List.filter_sublist.subset
    · exact List.nil_subset _
  · exact List.filter_sublist.subset

/-- **A key describes a status best** if it includes it and no narrower declared key does. -/
theorem best_iff {declared : List String} {key : String} {c : Coverage} (hkey : key ∈ declared) (hc : Spells key c)
    (status : Nat) : Best declared status key ↔ c.Includes status ∧
      ∀ key' ∈ declared, ∀ c', Spells key' c' → c'.Narrows c → c'.Narrows .rest → ¬ c'.Includes status := by
  constructor
  · intro hbest
    cases hbest with
    | one _ h =>
      cases spells_unique hc h
      exact ⟨rfl, fun key _ c' _ hn => by cases c' <;> exact absurd hn id⟩
    | family _ h hone =>
      cases spells_unique hc h
      refine ⟨rfl, fun key hm c' hc' hn _ hin => ?_⟩
      cases c' with
      | one n =>
        obtain rfl : status = n := hin
        exact hone key hm hc'
      | family _ | rest => exact hn
    | rest _ h hone hfamily =>
      cases spells_unique hc h
      refine ⟨trivial, fun key hm c' hc' _ hn hin => ?_⟩
      cases c' with
      | one n =>
        obtain rfl : status = n := hin
        exact hone key hm hc'
      | family d =>
        obtain rfl : status / 100 = d := hin
        exact hfamily key hm hc'
      | rest => exact hn
  · rintro ⟨hin, hout⟩
    cases c with
    | one n =>
      obtain rfl : status = n := hin
      exact .one hkey hc
    | family d =>
      obtain rfl : status / 100 = d := hin
      exact .family hkey hc fun other hm ho => hout other hm _ ho rfl trivial rfl
    | rest =>
      exact .rest hkey hc (fun other hm ho => hout other hm _ ho trivial trivial rfl)
        (fun other hm ho => hout other hm _ ho trivial trivial rfl)

/-- **The clauses under a declared key hold for the responses it describes best**, of the media type of the unwrapping. -/
theorem holds_iff_best {declared : List String} (hd : WellDeclared declared) {t : Unwrapping}
    (hkey : t.statusCode ∈ declared) (hshadowed : t.shadowed = shadowedBy t.statusCode declared) :
    ∃ clauses, t.clauses = .ok clauses ∧ (∀ x ∈ clauses, x.Plain) ∧ ∀ status contentType,
      (∀ x ∈ clauses, x.holds status contentType = true) ↔
        Best declared status t.statusCode ∧ t.contentType = contentType := by
  obtain ⟨c, hc⟩ := hd.spelled _ hkey
  obtain ⟨others, hothers, hplain, hiff⟩ := statusClauses_of_spells t.shadowed fun k hk =>
    hd.spelled k (shadowedBy_subset _ _ (by rwa [← hshadowed]))
  have hclauses : t.clauses = .ok (c.clauses true ++ others ++ [.media t.contentType]) := by
    rw [Unwrapping.clauses, statusClause_of_spells true hc, hothers]
  have hall : ∀ status, (∀ key ∈ t.shadowed, ∀ c', Spells key c' → c'.Narrows .rest → ¬ c'.Includes status) ↔
      ∀ key ∈ declared, ∀ c', Spells key c' → c'.Narrows c → c'.Narrows .rest → ¬ c'.Includes status := by
    intro status
    rw [hshadowed]
    constructor
    · intro h key hm c' hc' hn
      exact h key ((mem_shadowedBy hc hc' hm).2 hn) c' hc'
    · intro h key hm c' hc'
      have hm' := shadowedBy_subset _ _ hm
      exact h key hm' c' hc' ((mem_shadowedBy hc hc' hm').1 hm)
  refine ⟨_, hclauses, ?_, fun status contentType => ?_⟩
  · simp only [List.forall_mem_append, List.forall_mem_singleton]
    exact ⟨⟨hc.plain true, hplain⟩, trivial⟩
  · have hmedia : (Clause.media t.contentType).holds status contentType = true ↔ contentType = t.contentType := by
      simp [Clause.holds]
    rw [best_iff hkey hc, eq_comm (a := t.contentType)]
    simp only [List.forall_mem_append, List.forall_mem_singleton, holds_wanted hc, hiff, hall, hmedia]

/-! ## The text of a condition -/

/-- Whether names stand for what a method has when a response of a status and a media type has come. -/
structure Answered (named : String → Option Node) (status : Nat) (contentType : String) : Prop where
  status : (named "res").bind (·.get? "status") = some (.int status)
  contentType : (named "res").bind (·.get? "contentType") = some (.str contentType)

namespace Clause

/-- The comparison that the text of a clause says. -/
def comparison : Clause → Comparison
  | .status wanted code => ⟨.field "res" "status", wanted, .number code.toNat⟩
  | .family wanted digit => ⟨.floor "res" "status" 100, wanted, .number (digit.toNat - 48)⟩
  | .media contentType => ⟨.field "res" "contentType", true, .text contentType⟩

theorem reads_operator {left right : String} {o o' : Operand} (hleft : o.Reads left) (hright : o'.Reads right) :
    ∀ wanted : Bool, Comparison.Reads (left ++ operator wanted ++ right) ⟨o, wanted, o'⟩
  | true => Comparison.reads_same hleft hright
  | false => Comparison.reads_differs hleft hright

theorem reads_status : Operand.Reads "res.status" (.field "res" "status") := by
  rw [show "res.status" = "res" ++ "." ++ "status" by decide]
  exact Operand.reads_field (by decide) (by decide) (by decide)

theorem reads_contentType : Operand.Reads "res.contentType" (.field "res" "contentType") := by
  rw [show "res.contentType" = "res" ++ "." ++ "contentType" by decide]
  exact Operand.reads_field (by decide) (by decide) (by decide)

theorem reads_family : Operand.Reads "Math.floor(res.status / 100)" (.floor "res" "status" 100) := by
  rw [show "Math.floor(res.status / 100)" = "Math.floor(" ++ "res" ++ "." ++ "status" ++ " / " ++ Nat.repr 100 ++ ")" by decide]
  exact Operand.reads_floor (by decide) (by decide) 100

theorem reads : ∀ {x : Clause}, x.Plain → x.comparison.Reads x.text
  | .status wanted code, h => by
    obtain ⟨n, rfl⟩ := Int.eq_ofNat_of_zero_le h
    have hcode : toString (n : Int) = Nat.repr n := by
      rw [Int.toString_eq_repr, Int.repr_eq_if, if_pos (Int.natCast_nonneg n), Int.toNat_natCast]
    change Comparison.Reads ("res.status" ++ operator wanted ++ toString (n : Int)) ⟨_, wanted, .number n⟩
    rw [hcode]
    exact reads_operator reads_status (Operand.reads_number n) wanted
  | .family wanted _, ⟨d, hd, rfl⟩ => by
    have hdigit : (Nat.digitChar d).toString = Nat.repr d := by
      rw [Nat.repr_of_lt hd, Char.toString_eq_singleton]
    change Comparison.Reads ("Math.floor(res.status / 100)" ++ operator wanted ++ (Nat.digitChar d).toString)
      ⟨_, wanted, .number ((Nat.digitChar d).toNat - 48)⟩
    rw [hdigit, Nat.toNat_digitChar_sub_48_of_lt_ten hd]
    exact reads_operator reads_family (Operand.reads_number d) wanted
  | .media contentType, _ => by
    change Comparison.Reads ("res.contentType === " ++ Text.quote contentType) _
    rw [show "res.contentType === " = "res.contentType" ++ " === " by decide]
    exact Comparison.reads_same reads_contentType (Operand.reads_text contentType)

/-- **The comparison says whether the clause holds.** -/
theorem value?_comparison {named : String → Option Node} {status : Nat} {contentType : String}
    (hres : Answered named status contentType) : ∀ {x : Clause}, x.Plain →
    x.comparison.value? named = some (x.holds status contentType)
  | .status wanted code, h => by
    obtain ⟨n, rfl⟩ := Int.eq_ofNat_of_zero_le h
    simp [comparison, Comparison.value?, Operand.value?, hres.status, strictlyEqual?, holds]
  | .family wanted _, ⟨d, hd, rfl⟩ => by
    have hdigit : (status / 100 + 48 == (Nat.digitChar d).toNat) = ((status : Int) / 100 == (d : Int)) := by
      rw [Nat.toNat_digitChar_of_lt_ten hd, Bool.eq_iff_iff, beq_iff_eq, beq_iff_eq]
      omega
    simp [comparison, Comparison.value?, Operand.value?, hres.status, strictlyEqual?, holds, hdigit,
      Nat.toNat_digitChar_sub_48_of_lt_ten hd]
  | .media text, _ => by
    simp [comparison, Comparison.value?, Operand.value?, hres.contentType, strictlyEqual?, holds]

end Clause

/-- **The text of a condition reads as one that says whether all clauses hold.** -/
theorem exists_test {t : Unwrapping} {clauses : List Clause} (hclauses : t.clauses = .ok clauses)
    (hplain : ∀ x ∈ clauses, x.Plain) : ∃ text test, t.condition = .ok text ∧ readCondition? text = some test ∧
      ∀ named status contentType, Answered named status contentType →
        test.value? named = some (clauses.all (·.holds status contentType)) := by
  have hne : clauses ≠ [] := by
    rintro rfl
    unfold Unwrapping.clauses at hclauses
    split at hclauses <;> simp at hclauses
  have hreads : List.Forall₂ Comparison.Reads (clauses.map Clause.text) (clauses.map Clause.comparison) := by
    rw [List.forall₂_map_left_iff, List.forall₂_map_right_iff, List.forall₂_same]
    exact fun x hx => Clause.reads (hplain x hx)
  refine ⟨_, _, by rw [Unwrapping.condition, hclauses]; rfl, Script.readCondition?_intercalate hreads (by simpa using hne), ?_⟩
  intro named status contentType hres
  exact Script.Condition.value?_map fun x hx => Clause.value?_comparison hres (hplain x hx)

/-- A branch of a method: what it unwraps, the text of its condition, and the condition that this reads as. -/
structure Branch where
  unwrapping : Unwrapping
  condition : String
  test : Script.Condition

namespace Branch

/-- The branch as a statement. -/
def text (b : Branch) : String :=
  "\n    if (" ++ b.condition ++ ") \x7b\n      return " ++ b.unwrapping.accessor.text ++ ";\n    \x7d\n"

/-- Whether the condition of a branch is printed as it is, and true exactly for what its key describes best. -/
structure Dispatches (declared : List String) (b : Branch) : Prop where
  printed : b.unwrapping.condition = .ok b.condition
  read : readCondition? b.condition = some b.test
  value : ∀ named status contentType, Answered named status contentType → ∃ taken, b.test.value? named = some taken ∧
    (taken = true ↔ Best declared status b.unwrapping.statusCode ∧ b.unwrapping.contentType = contentType)

end Branch

theorem exists_branch {declared : List String} (hd : WellDeclared declared) {t : Unwrapping}
    (hkey : t.statusCode ∈ declared) (hshadowed : t.shadowed = shadowedBy t.statusCode declared) :
    ∃ b : Branch, b.unwrapping = t ∧ b.Dispatches declared := by
  obtain ⟨clauses, hclauses, hplain, hbest⟩ := holds_iff_best hd hkey hshadowed
  obtain ⟨text, test, hprinted, hread, hvalue⟩ := exists_test hclauses hplain
  refine ⟨⟨t, text, test⟩, rfl, hprinted, hread, fun named status contentType hres => ?_⟩
  refine ⟨_, hvalue named status contentType hres, ?_⟩
  rw [List.all_eq_true]
  exact hbest status contentType

theorem branches_eq_join : ∀ {chain : List Branch}, (∀ b ∈ chain, b.unwrapping.condition = .ok b.condition) →
    branches (chain.map (·.unwrapping)) = .ok (String.join (chain.map Branch.text))
  | [], _ => rfl
  | b :: rest, h => by
    have hrest := branches_eq_join fun x hx => h x (List.mem_cons_of_mem _ hx)
    rw [List.map_cons, branches, Unwrapping.branch, h b List.mem_cons_self, hrest, List.map_cons, String.join_cons]
    rfl

end Emit

/-! ## The unwrappings of an operation -/

namespace Operation

open Emit Codegen

/-- The media types of a response, each with what is declared for it. -/
def mediaOf (response : Node) : List (String × Node) :=
  (((response.get? "content").bind Node.entries?).getD []).filter (·.2.isMap)

/-- **The bodies of responses**: a status key, a media type, and what is declared for it. -/
def bodies (responses : List (String × Node)) : List (String × String × Node) :=
  responses.flatMap fun (key, response) => (mediaOf response).map fun (contentType, media) => (key, contentType, media)

/-- The unwrapping of a body, if it is unwrapped. -/
def unwrapping? (declared : List String) : String × String × Node → Option Unwrapping
  | (key, contentType, media) =>
    match unwrap? ((media.get? "schema").bind Schema.read?) media with
    | .ok (some (path, _, steps)) => some ⟨key, contentType, path, steps, shadowedBy key declared⟩
    | _ => none

/-- The type of a body is made from what its unwrapping leads to. -/
theorem bodyType_eq_ok {operationName key contentType : String} {declared : List String} {several : Bool}
    {media : Node} {s t : Session} {found : TypeExpr × Option Unwrapping}
    (h : bodyType operationName key declared several contentType media s = .ok found t) :
    ∃ unwrapping name u, unwrap? ((media.get? "schema").bind Schema.read?) media = .ok unwrapping ∧
      resolveType (returned ((media.get? "schema").bind Schema.read?) unwrapping) (some name) u = .ok found.1 t ∧
      found.2 = unwrapping.map fun (path, _, steps) => ⟨key, contentType, path, steps, shadowedBy key declared⟩ := by
  unfold bodyType at h
  obtain ⟨-, u, -, h⟩ := bind_eq_ok.1 h
  cases hw : unwrap? ((media.get? "schema").bind Schema.read?) media with
  | error e =>
    rw [hw] at h
    exact absurd h throw_ne_ok
  | ok unwrapping =>
    rw [hw] at h
    obtain ⟨type, u', htype, h⟩ := bind_eq_ok.1 h
    obtain ⟨rfl, rfl⟩ := pure_eq_ok.1 h
    exact ⟨unwrapping, _, u, rfl, htype, rfl⟩

theorem bodyType_unwrapping {operationName key contentType : String} {declared : List String} {several : Bool}
    {media : Node} {s t : Session} {found : TypeExpr × Option Unwrapping}
    (h : bodyType operationName key declared several contentType media s = .ok found t) :
    found.2 = unwrapping? declared (key, contentType, media) := by
  obtain ⟨unwrapping, name, u, hw, -, hfound⟩ := bodyType_eq_ok h
  rw [hfound, unwrapping?, hw]
  cases unwrapping <;> rfl

theorem bodyTypes_unwrappings {operationName key : String} {declared : List String} {several : Bool} :
    ∀ {content : List (String × Node)} {s t : Session} {found : List (TypeExpr × Option Unwrapping)},
    bodyTypes operationName key declared several content s = .ok found t →
    found.map (·.2) = (content.filter (·.2.isMap)).map fun (contentType, media) =>
      unwrapping? declared (key, contentType, media)
  | [], s, t, found, h => by
    obtain ⟨rfl, -⟩ := pure_eq_ok.1 h
    rfl
  | (contentType, media) :: rest, s, t, found, h => by
    rw [bodyTypes] at h
    split at h
    · rename_i hmap
      obtain ⟨first, u, hfirst, h⟩ := bind_eq_ok.1 h
      obtain ⟨more, u', hmore, h⟩ := bind_eq_ok.1 h
      obtain ⟨rfl, -⟩ := pure_eq_ok.1 h
      rw [List.filter_cons_of_pos (by exact hmap), List.map_cons, List.map_cons, bodyTypes_unwrappings hmore,
        bodyType_unwrapping hfirst]
    · rename_i hmap
      rw [List.filter_cons_of_neg (by exact hmap), bodyTypes_unwrappings h]

theorem responseTypes_unwrappings {operationName : String} {declared : List String} :
    ∀ {responses : List (String × Node)} {s t : Session} {found : List (TypeExpr × Option Unwrapping)},
    responseTypes operationName declared responses s = .ok found t →
    found.map (·.2) = (bodies responses).map (unwrapping? declared)
  | [], s, t, found, h => by
    obtain ⟨rfl, -⟩ := pure_eq_ok.1 h
    rfl
  | (key, response) :: rest, s, t, found, h => by
    rw [bodies, List.flatMap_cons, ← bodies, List.map_append, List.map_map, mediaOf]
    unfold responseTypes at h
    cases hcontent : (response.get? "content").bind Node.entries? with
    | some content =>
      rw [hcontent] at h
      obtain ⟨first, u, hfirst, h⟩ := bind_eq_ok.1 h
      obtain ⟨more, u', hmore, h⟩ := bind_eq_ok.1 h
      obtain ⟨rfl, -⟩ := pure_eq_ok.1 h
      rw [List.map_append, bodyTypes_unwrappings hfirst, responseTypes_unwrappings hmore]
      rfl
    | none =>
      rw [hcontent] at h
      rw [responseTypes_unwrappings h]
      rfl

/-- Every status key is of one of three ranks, so that nothing is lost by taking the unwrappings rank by rank. -/
theorem ranked_perm : ∀ all : List Unwrapping,
    ((all.filter fun t => statusRank t.statusCode == 0) ++ (all.filter fun t => statusRank t.statusCode == 1) ++
      all.filter fun t => statusRank t.statusCode == 2).Perm all
  | [] => .nil
  | t :: rest => by
    have ih := ranked_perm rest
    have hrank : statusRank t.statusCode = 0 ∨ statusRank t.statusCode = 1 ∨ statusRank t.statusCode = 2 := by
      unfold statusRank
      split
      · exact .inl rfl
      · split
        · exact .inr (.inl rfl)
        · exact .inr (.inr rfl)
    rcases hrank with h | h | h
    · simpa [h] using ih
    · simp only [List.filter_cons, h, Nat.reduceBEq, Bool.false_eq_true, if_false, if_true]
      exact (List.perm_middle.append_right _).trans (by simpa using ih)
    · simp only [List.filter_cons, h, Nat.reduceBEq, Bool.false_eq_true, if_false, if_true]
      exact List.perm_middle.trans (ih.cons t)

/-- **The unwrappings of an operation are those of its bodies**, in the order of how specific their keys are. -/
theorem responsesOf_unwrappings {operation : Node} {operationName : String} {responses : List (String × Node)}
    {s t : Session} {found : Responses}
    (hresponses : (operation.get? "responses").bind Node.entries? = some responses)
    (h : responsesOf operation operationName s = .ok found t) :
    found.unwrappings.Perm ((bodies responses).filterMap (unwrapping? (responses.map (·.1)))) := by
  rw [responsesOf, hresponses] at h
  obtain ⟨types, u, htypes, h⟩ := bind_eq_ok.1 h
  obtain ⟨rfl, -⟩ := pure_eq_ok.1 h
  have hall : types.filterMap (·.2) = (bodies responses).filterMap (unwrapping? (responses.map (·.1))) := by
    have := congrArg (List.filterMap id) (responseTypes_unwrappings htypes)
    simpa only [List.filterMap_map, Function.id_comp, Function.comp_def, id] using this
  rw [← hall]
  generalize types.filterMap (·.2) = all
  exact ranked_perm all

theorem generate_eq_ok {spec : Spec} {s t : Session} {method : Method} (h : generate spec s = .ok method t) :
    ∃ responses u u', responsesOf spec.operation spec.name u = .ok responses u' ∧
      method.unwrappings = responses.unwrappings := by
  unfold generate at h
  cases hp : spec.parameters with
  | error e =>
    rw [hp] at h
    obtain ⟨_, _, h, -⟩ := bind_eq_ok.1 h
    exact absurd h throw_ne_ok
  | ok parameters =>
    rw [hp] at h
    obtain ⟨declared, _, -, h⟩ := bind_eq_ok.1 h
    obtain ⟨arguments, _, -, h⟩ := bind_eq_ok.1 h
    obtain ⟨body, u, -, h⟩ := bind_eq_ok.1 h
    obtain ⟨responses, u', hresponses, h⟩ := bind_eq_ok.1 h
    refine ⟨responses, u, u', hresponses, ?_⟩
    cases hpath : pathExpression spec.path (arguments ++ body.toList) spec.name with
    | error e =>
      rw [hpath] at h
      exact absurd h throw_ne_ok
    | ok path =>
      rw [hpath] at h
      obtain ⟨_, _, -, h⟩ := bind_eq_ok.1 h
      obtain ⟨rfl, -⟩ := pure_eq_ok.1 h
      rfl

/-! ## One body for a key and a media type -/

theorem proper_of_get? {node x : Node} {key : String} (hn : node.Proper) (h : node.get? key = some x) : x.Proper := by
  cases node with
  | map path entries => exact Node.everywhere_below _ _ hn (.value (mem_of_lookup _ _ _ h))
  | _ => cases h

theorem proper_of_mem {node x : Node} {entries : List (String × Node)} {key : String} (hn : node.Proper)
    (h : node.entries? = some entries) (hx : (key, x) ∈ entries) : x.Proper := by
  cases node with
  | map path entries' =>
    cases h
    exact Node.everywhere_below _ _ hn (.value hx)
  | _ => cases h

theorem nodup_of_entries {node : Node} {entries : List (String × Node)} (hn : node.Proper)
    (h : node.entries? = some entries) : (entries.map (·.1)).Nodup := by
  cases node with
  | map path entries' =>
    cases h
    exact of_decide_eq_true (Node.everywhere_self _ hn)
  | _ => cases h

theorem nodup_mediaOf {response : Node} (hn : response.Proper) : ((mediaOf response).map (·.1)).Nodup := by
  unfold mediaOf
  cases hc : response.get? "content" with
  | none => exact List.nodup_nil
  | some content =>
    cases he : content.entries? with
    | none => simp [he]
    | some entries =>
      simp only [Option.bind_some, he, Option.getD_some]
      exact (nodup_of_entries (proper_of_get? hn hc) he).sublist (List.filter_sublist.map _)

/-- **No two bodies have one status key and one media type.** -/
theorem bodies_pairwise {operation container : Node} {responses : List (String × Node)} (hn : operation.Proper)
    (hc : operation.get? "responses" = some container) (hr : container.entries? = some responses) :
    (bodies responses).Pairwise fun a b => ¬ (a.1 = b.1 ∧ a.2.1 = b.2.1) := by
  have hcontainer := proper_of_get? hn hc
  rw [bodies, List.pairwise_flatMap]
  constructor
  · rintro ⟨key, response⟩ hm
    rw [List.pairwise_map]
    refine (List.pairwise_map.1 (nodup_mediaOf (proper_of_mem hcontainer hr hm))).imp ?_
    rintro a b hab ⟨-, h⟩
    exact hab h
  · refine (List.pairwise_map.1 (nodup_of_entries hcontainer hr)).imp ?_
    rintro ⟨key, response⟩ ⟨key', response'⟩ hkeys a ha b hb ⟨h, -⟩
    obtain ⟨_, -, rfl⟩ := List.mem_map.1 ha
    obtain ⟨_, -, rfl⟩ := List.mem_map.1 hb
    exact hkeys h

theorem key_mem_of_bodies {responses : List (String × Node)} {key contentType : String} {media : Node}
    (h : (key, contentType, media) ∈ bodies responses) : key ∈ responses.map (·.1) := by
  obtain ⟨⟨key', response⟩, hm, h⟩ := List.mem_flatMap.1 h
  obtain ⟨_, -, h⟩ := List.mem_map.1 h
  cases h
  exact List.mem_map_of_mem hm

theorem unwrapping?_eq_some {declared : List String} {key contentType : String} {media : Node} {t : Unwrapping} :
    unwrapping? declared (key, contentType, media) = some t ↔ ∃ path target steps,
      unwrap? ((media.get? "schema").bind Schema.read?) media = .ok (some (path, target, steps)) ∧
      t = ⟨key, contentType, path, steps, shadowedBy key declared⟩ := by
  rw [unwrapping?]
  rcases unwrap? ((media.get? "schema").bind Schema.read?) media with e | (_ | ⟨path, target, steps⟩)
  · simp
  · simp
  · simp [eq_comm]

/-- Whether a body is declared under a status key and a media type, and is unwrapped. -/
def Carries (responses : List (String × Node)) (key contentType : String) : Prop :=
  ∃ media found, (key, contentType, media) ∈ bodies responses ∧
    unwrap? ((media.get? "schema").bind Schema.read?) media = .ok (some found)

theorem exists_unwrapping_iff (responses : List (String × Node)) (declared : List String) (key contentType : String) :
    (∃ t ∈ (bodies responses).filterMap (unwrapping? declared), t.statusCode = key ∧ t.contentType = contentType) ↔
      Carries responses key contentType := by
  constructor
  · rintro ⟨t, ht, rfl, rfl⟩
    obtain ⟨⟨key, contentType, media⟩, hm, ht⟩ := List.mem_filterMap.1 ht
    obtain ⟨path, target, steps, hfound, rfl⟩ := unwrapping?_eq_some.1 ht
    exact ⟨media, _, hm, hfound⟩
  · rintro ⟨media, ⟨path, target, steps⟩, hm, hfound⟩
    exact ⟨_, List.mem_filterMap.2 ⟨_, hm, unwrapping?_eq_some.2 ⟨path, target, steps, hfound, rfl⟩⟩, rfl, rfl⟩

/-- No two unwrappings are for the same key and media type. -/
theorem unwrappings_pairwise {operation : Node} {responses : List (String × Node)} (hproper : operation.Proper)
    (hresponses : (operation.get? "responses").bind Node.entries? = some responses) :
    ((bodies responses).filterMap (unwrapping? (responses.map (·.1)))).Pairwise
      fun a b => ¬ (a.statusCode = b.statusCode ∧ a.contentType = b.contentType) := by
  obtain ⟨container, hc, hr⟩ := Option.bind_eq_some_iff.1 hresponses
  refine List.pairwise_filterMap.2 ((bodies_pairwise hproper hc hr).imp ?_)
  intro b b' hb a ha a' ha' h
  obtain ⟨_, _, _, -, rfl⟩ := unwrapping?_eq_some.1 ha
  obtain ⟨_, _, _, -, rfl⟩ := unwrapping?_eq_some.1 ha'
  exact hb h

/-- The branches of a method: one for each body that is unwrapped, no two for one key and one media type. -/
theorem exists_chain {spec : Spec} {s t : Session} {method : Method} {responses : List (String × Node)}
    (hproper : spec.operation.Proper)
    (hresponses : (spec.operation.get? "responses").bind Node.entries? = some responses)
    (hkeys : WellDeclared (responses.map (·.1))) (hrun : generate spec s = .ok method t) :
    ∃ chain : List Branch, chain.map (·.unwrapping) = method.unwrappings ∧
      (∀ b ∈ chain, b.Dispatches (responses.map (·.1))) ∧
      (∀ key contentType, (∃ b ∈ chain, b.unwrapping.statusCode = key ∧ b.unwrapping.contentType = contentType) ↔
        Carries responses key contentType) ∧
      chain.Pairwise fun a b => ¬ (a.unwrapping.statusCode = b.unwrapping.statusCode ∧
        a.unwrapping.contentType = b.unwrapping.contentType) := by
  obtain ⟨found, u, u', hfound, hunwrappings⟩ := generate_eq_ok hrun
  have hperm := responsesOf_unwrappings hresponses hfound
  rw [← hunwrappings] at hperm
  have hbranch : ∀ a ∈ method.unwrappings, ∃ b : Branch, b.unwrapping = a ∧ b.Dispatches (responses.map (·.1)) := by
    intro a ha
    obtain ⟨⟨key, contentType, media⟩, hm, ha⟩ := List.mem_filterMap.1 (hperm.mem_iff.1 ha)
    obtain ⟨path, target, steps, -, rfl⟩ := unwrapping?_eq_some.1 ha
    exact exists_branch hkeys (key_mem_of_bodies hm) rfl
  obtain ⟨chain, hchain, hdispatches⟩ := exists_map_eq hbranch
  refine ⟨chain, hchain, hdispatches, fun key contentType => ?_, ?_⟩
  · rw [← exists_unwrapping_iff responses (responses.map (·.1))]
    simp only [← hperm.mem_iff, ← hchain, List.mem_map, exists_exists_and_eq_and]
  · have h := (hperm.pairwise_iff fun h h' => h ⟨h'.1.symm, h'.2.symm⟩).2 (unwrappings_pairwise hproper hresponses)
    rwa [← hchain, List.pairwise_map] at h

/-- **A response is unwrapped by the branch of the declared key that describes it best, and by no other.**  The text of a method
ends with one `if` for each body that is unwrapped, and behind them the body is returned whole, unless nothing is declared to be
returned.  Their conditions, read as expressions and evaluated for a response, are true exactly where the status is described
best by the key and the media type is that of the body; no two are true together, and none is for what is not unwrapped. -/
theorem branches_dispatch {spec : Spec} {s t : Session} {method : Method} {responses : List (String × Node)}
    (hproper : spec.operation.Proper)
    (hresponses : (spec.operation.get? "responses").bind Node.entries? = some responses)
    (hkeys : WellDeclared (responses.map (·.1))) (hrun : generate spec s = .ok method t) :
    ∃ (head : String) (chain : List Branch), chain.map (·.unwrapping) = method.unwrappings ∧
      method.text = .ok (head ++ "    \x7d);\n" ++ String.join (chain.map Branch.text) ++
        (if method.returnType.text = "void" then "" else "\n    return res.data;\n") ++ "  \x7d\n") ∧
      (∀ b ∈ chain, Script.readCondition? b.condition = some b.test) ∧
      (∀ key contentType, (∃ b ∈ chain, b.unwrapping.statusCode = key ∧ b.unwrapping.contentType = contentType) ↔
        Carries responses key contentType) ∧
      ∀ named status contentType, Answered named status contentType →
        (chain.Pairwise fun a b => ¬ (a.test.value? named = some true ∧ b.test.value? named = some true)) ∧
        (∀ b ∈ chain, ∃ taken, b.test.value? named = some taken ∧
          (taken = true ↔ Best (responses.map (·.1)) status b.unwrapping.statusCode ∧ b.unwrapping.contentType = contentType)) ∧
        ((∀ key, Best (responses.map (·.1)) status key → ¬ Carries responses key contentType) →
          ∀ b ∈ chain, b.test.value? named = some false) := by
  obtain ⟨chain, hchain, hdispatches, hcarries, hdistinct⟩ := exists_chain hproper hresponses hkeys hrun
  have htext := branches_eq_join fun b hb => (hdispatches b hb).printed
  rw [hchain] at htext
  refine ⟨_, chain, hchain, by rw [Method.text, htext]; rfl, fun b hb => (hdispatches b hb).read, hcarries, ?_⟩
  intro named status contentType hres
  have htaken := fun b hb => (hdispatches b hb).value named status contentType hres
  -- a branch whose condition is true is the one that describes the response best
  have htrue : ∀ b ∈ chain, b.test.value? named = some true →
      Best (responses.map (·.1)) status b.unwrapping.statusCode ∧ b.unwrapping.contentType = contentType := by
    intro b hb h
    obtain ⟨taken, hvalue, hiff⟩ := htaken b hb
    exact hiff.1 (Option.some.inj (hvalue.symm.trans h))
  refine ⟨?_, htaken, ?_⟩
  · refine List.Pairwise.imp_of_mem ?_ hdistinct
    rintro a b ha hb hab ⟨hA, hB⟩
    obtain ⟨hkeyA, htypeA⟩ := htrue a ha hA
    obtain ⟨hkeyB, htypeB⟩ := htrue b hb hB
    exact hab ⟨best_unique hkeys hkeyA hkeyB, htypeA.trans htypeB.symm⟩
  · intro hnone b hb
    obtain ⟨taken, hvalue, hiff⟩ := htaken b hb
    cases taken with
    | false => exact hvalue
    | true =>
      obtain ⟨hkey, htype⟩ := hiff.1 rfl
      exact absurd ((hcarries _ _).1 ⟨b, hb, rfl, htype⟩) (hnone _ hkey)

/-- A lookup that declares a message for a missing thing, for all other faults of a request, and for everything else. -/
def lookup : Spec :=
  let message : Node := .map none [("content", .map none [("application/json", .map none [("schema", .map none
    [("type", .str "object"), ("properties", .map none [("message", .map none [("type", .str "string")])])])])])]
  ⟨"/things", "get", .map none [("responses", .map none [("default", message), ("4XX", message), ("404", message)])],
    .map none []⟩

theorem lookup_dispatched : ∃ method t, ∃ chain : List Branch, generate lookup default = .ok method t ∧
    lookup.operation.Proper ∧ WellDeclared ["default", "4XX", "404"] ∧ chain.map (·.unwrapping) = method.unwrappings ∧
    (∀ b ∈ chain, Script.readCondition? b.condition = some b.test) ∧
    ∀ named status contentType, Answered named status contentType → ∀ b ∈ chain, ∃ taken, b.test.value? named = some taken ∧
      (taken = true ↔ Best ["default", "4XX", "404"] status b.unwrapping.statusCode ∧ b.unwrapping.contentType = contentType) := by
  have hkeys : WellDeclared ["default", "4XX", "404"] := by
    have hfamily : Spells "4XX" (.family 4) := .family (d := 4) (by decide) (by decide) (.inl rfl) (.inl rfl)
    have hone : Spells "404" (.one 404) := (show Nat.repr 404 = "404" by rfl) ▸ .one (by decide) (by decide)
    have hspells : ∀ k ∈ [("default", Coverage.rest), ("4XX", .family 4), ("404", .one 404)], Spells k.1 k.2 := by
      simp only [List.forall_mem_cons]
      exact ⟨.rest, hfamily, hone, by simp⟩
    exact wellDeclared_of_spells hspells (by decide)
  have hproper : lookup.operation.Proper := by decide
  obtain ⟨method, t, hrun⟩ := exists_of_succeeds (r := generate lookup default) (by decide +kernel)
  obtain ⟨head, chain, hchain, -, hread, -, htaken⟩ := branches_dispatch hproper rfl hkeys hrun
  exact ⟨method, t, chain, hrun, hproper, hkeys, hchain, hread, fun named status contentType hres =>
    (htaken named status contentType hres).2.1⟩

/-- A call that answers without a body. -/
def ping : Spec := ⟨"/ping", "get", .map none [("responses", .map none [("204", .map none [])])], .map none []⟩

/-- **A method that is declared to return nothing does not return the body** of a response that it has no branch for. -/
theorem ping_returns_nothing : ∃ method t text, generate ping default = .ok method t ∧
    (ping.operation.get? "responses").bind Node.entries? = some [("204", .map none [])] ∧ WellDeclared ["204"] ∧
    Best ["204"] 204 "204" ∧ (∀ contentType, ¬ Carries [("204", .map none [])] "204" contentType) ∧
    method.text = .ok text ∧ ¬ ∃ front, text = front ++ "\n    return res.data;\n  \x7d\n" := by
  have hone : Spells "204" (.one 204) := (show Nat.repr 204 = "204" by rfl) ▸ .one (by decide) (by decide)
  have hkeys : WellDeclared ["204"] := by
    have hspells : ∀ k ∈ [("204", Coverage.one 204)], Spells k.1 k.2 := by
      simp only [List.forall_mem_cons]
      exact ⟨hone, by simp⟩
    exact wellDeclared_of_spells hspells (by decide)
  obtain ⟨method, t, hrun⟩ := exists_of_succeeds (r := generate ping default) (by decide +kernel)
  have htext : (match generate ping default with
      | .ok method _ => method.text.toOption.map (Text.endsWith · "\n    return res.data;\n  \x7d\n")
      | .error .. => none) = some false := by decide +kernel
  simp only [hrun] at htext
  cases hm : method.text with
  | error e =>
    rw [hm] at htext
    cases htext
  | ok text =>
    rw [hm] at htext
    refine ⟨method, t, text, hrun, rfl, hkeys, .one List.mem_cons_self hone, ?_, hm, ?_⟩
    · rintro contentType ⟨media, found, hbody, -⟩
      cases hbody
    · rintro ⟨front, rfl⟩
      have hend : Text.endsWith (front ++ "\n    return res.data;\n  \x7d\n") "\n    return res.data;\n  \x7d\n" = true := by
        rw [Text.endsWith, String.toList_append, List.isSuffixOf_iff_suffix]
        exact List.suffix_append _ _
      exact absurd (hend.symm.trans (Option.some.inj htext)) (by decide)

end Operation
end TypedClient
