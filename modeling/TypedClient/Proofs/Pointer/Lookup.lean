import TypedClient.Document.Expand
import TypedClient.Proofs.Pointer
/-!
# Lookup — what a pointer designates, and when looking it up fails

A token leads into a mapping by its key, and into a list if it spells an index in decimal digits of any script.  Looking up a
pointer answers with what its tokens lead to, and with nothing if they lead nowhere (`resolve_eq_some_iff`,
`resolve_eq_none_iff`).  It fails only where a list is met by a token of digits that spell no number, because one of them has
no decimal value or because there are too many (`resolve_eq_error_iff`).
-/
namespace TypedClient

namespace Text

variable {c : Char} {cs : List Char} {token : String}

/-! ## Numerals of any script -/

theorem isDigit_eq_false_of_isBlank (h : isBlank c = true) : isDigit c = false := by
  -- there are few blanks, and each of them can be tried
  have hblanks : ∀ n ∈ [9, 10, 11, 12, 13, 28, 29, 30, 31, 32, 0x85, 0xA0, 0x1680, 0x2000, 0x2001, 0x2002, 0x2003,
      0x2004, 0x2005, 0x2006, 0x2007, 0x2008, 0x2009, 0x200A, 0x2028, 0x2029, 0x202F, 0x205F, 0x3000],
      isDigit (Char.ofNat n) = false := by decide
  have hc := hblanks c.toNat (by
    simp only [isBlank, Bool.or_eq_true, Bool.and_eq_true, decide_eq_true_eq, beq_iff_eq] at h
    simp only [List.mem_cons, List.not_mem_nil, or_false]
    omega)
  rwa [Char.ofNat_toNat] at hc

theorem dropEnds_of_isDigit (h : ∀ c ∈ cs, isDigit c = true) : dropEnds isNumberMargin cs = cs := by
  refine dropEnds_of_none _ _ fun c hc => ?_
  cases hb : isBlank c with
  | false => rw [isNumberMargin, hb, Bool.false_and]
  | true => exact absurd (h c hc) (by simp [isDigit_eq_false_of_isBlank hb])

/-- Digits are read one by one, if they all have values. -/
theorem digits?_eq_some_iff : ∀ {cs : List Char} {ds : List Nat}, cs ≠ [] → (∀ c ∈ cs, isDigit c = true) →
    (digits? cs = some ds ↔ cs.map digitValue? = ds.map some)
  | [], _, h, _ => absurd rfl h
  | [c], ds, _, _ => by
    rw [digits?]
    rcases ds with _ | ⟨d, _ | ⟨e, ds⟩⟩ <;> simp
  | c :: d :: cs, ds, _, h => by
    have ih : ∀ {ds}, digits? (d :: cs) = some ds ↔ (d :: cs).map digitValue? = ds.map some :=
      digits?_eq_some_iff (List.cons_ne_nil _ _) fun e he => h e (List.mem_cons_of_mem _ he)
    have hunderscore : d ≠ '_' := by
      rintro rfl
      exact absurd (h '_' (by simp)) (by decide)
    have hcons : digits? (c :: d :: cs) = (digitValue? c).bind fun n => (digits? (d :: cs)).map (n :: ·) := by
      rw [digits?]
      · cases digitValue? c <;> cases digits? (d :: cs) <;> rfl
      · simp
      · exact fun rest hrest => hunderscore (List.cons.inj hrest).1
    rw [hcons, List.map_cons]
    cases digitValue? c with
    | none => cases ds <;> simp
    | some m =>
      cases ds with
      | nil => simp
      | cons n ds =>
        change _ ↔ some m :: (d :: cs).map digitValue? = some n :: ds.map some
        rw [List.cons.injEq, ← ih]
        simp [and_comm]

theorem exists_digits?_iff (hne : cs ≠ []) (h : ∀ c ∈ cs, isDigit c = true) :
    (∃ ds, digits? cs = some ds) ↔ ∀ c ∈ cs, digitValue? c ≠ none := by
  simp only [digits?_eq_some_iff hne h]
  constructor
  · rintro ⟨ds, hds⟩ c hc hnone
    have hm : none ∈ ds.map some := hds ▸ hnone ▸ List.mem_map_of_mem hc
    simp at hm
  · intro hsome
    refine ⟨cs.map fun c => (digitValue? c).getD 0, ?_⟩
    rw [List.map_map]
    refine List.map_congr_left fun c hc => ?_
    obtain ⟨n, hn⟩ := Option.ne_none_iff_exists'.1 (hsome c hc)
    simp [hn]

theorem toList_of_isNumeral (h : isNumeral token = true) : token.toList ≠ [] ∧ ∀ c ∈ token.toList, isDigit c = true := by
  obtain ⟨hempty, hall⟩ := Bool.and_eq_true_iff.1 h
  refine ⟨fun hnil => ?_, List.all_eq_true.1 hall⟩
  rw [String.toList_eq_nil_iff] at hnil
  exact absurd hempty (by rw [hnil]; decide)

theorem readInt?_of_isNumeral (h : isNumeral token = true) : readInt? token = (readNat? token.toList).map Int.ofNat := by
  obtain ⟨-, hall⟩ := toList_of_isNumeral h
  unfold readInt?
  rw [dropEnds_of_isDigit hall]
  split
  · rename_i cs hcs
    exact absurd (hall '+' (hcs ▸ List.mem_cons_self)) (by decide)
  · rename_i cs hcs
    exact absurd (hall '-' (hcs ▸ List.mem_cons_self)) (by decide)
  · rfl

theorem length_of_map_eq {ds : List Nat} (h : cs.map digitValue? = ds.map some) : ds.length = cs.length := by
  simpa using (congrArg List.length h).symm

end Text

namespace Pointer

open Text (isNumeral readInt? digitValue? digitLimit ofDigits)

/-- Whether a token spells the index: in decimal digits, and no more of them than are read. -/
def Spells (token : String) (index : Nat) : Prop :=
  token ≠ "" ∧ ∃ ds, token.toList.map digitValue? = ds.map some ∧ ds.length ≤ digitLimit ∧ ofDigits 10 ds = index

/-- Whether a token consists of digits and spells no index: one of them has no decimal value, or there are too many. -/
def Unreadable (token : String) : Prop :=
  isNumeral token = true ∧ ((∃ c ∈ token.toList, digitValue? c = none) ∨ digitLimit < token.length)

/-- The node that a token leads to: the value of a key of a mapping, or the item of a list at the index that it spells. -/
inductive Leads : Node → String → Node → Prop where
  | value {path : Option String} {entries : List (String × Node)} {key : String} {x : Node}
    (hx : entries.lookup key = some x) : Leads (.map path entries) key x
  | item {path : Option String} {items : List Node} {token : String} {index : Nat} {x : Node}
    (hindex : Spells token index) (hx : items[index]? = some x) : Leads (.list path items) token x

/-- **What tokens designate**: the node that they lead to, one after the other. -/
inductive Designates : Node → List String → Node → Prop where
  | here {node : Node} : Designates node [] node
  | step {node next found : Node} {token : String} {rest : List String} (hnext : Leads node token next)
    (h : Designates next rest found) : Designates node (token :: rest) found

/-- Whether tokens lead to a list that the next one of them, which is `token`, should index but cannot. -/
def Stuck (node : Node) (tokens : List String) (token : String) : Prop :=
  ∃ before rest path items, tokens = before ++ token :: rest ∧ Designates node before (.list path items) ∧ Unreadable token

variable {node found document : Node} {token pointer : String} {tokens : List String} {index : Nat}

/-! ## One token -/

theorem spells_iff : Spells token index ↔ isNumeral token = true ∧ readInt? token = some (index : Int) := by
  have hnumeral : (∃ ds : List Nat, token.toList.map digitValue? = ds.map some) → token ≠ "" → isNumeral token = true := by
    rintro ⟨ds, hds⟩ hne
    rw [isNumeral, Bool.and_eq_true_iff, List.all_eq_true]
    refine ⟨by simpa [String.isEmpty_iff] using hne, fun c hc => ?_⟩
    have hm : digitValue? c ∈ ds.map some := hds ▸ List.mem_map_of_mem hc
    obtain ⟨n, -, hn⟩ := List.mem_map.1 hm
    rw [Text.isDigit, ← hn]
    rfl
  constructor
  · rintro ⟨hne, ds, hds, hlength, rfl⟩
    have h := hnumeral ⟨ds, hds⟩ hne
    obtain ⟨hnil, hall⟩ := Text.toList_of_isNumeral h
    refine ⟨h, ?_⟩
    rw [Text.readInt?_of_isNumeral h, Text.readNat?, (Text.digits?_eq_some_iff hnil hall).2 hds]
    simp [hlength]
  · rintro ⟨h, hread⟩
    obtain ⟨hnil, hall⟩ := Text.toList_of_isNumeral h
    rw [Text.readInt?_of_isNumeral h, Text.readNat?] at hread
    cases hds : Text.digits? token.toList with
    | none => simp [hds] at hread
    | some ds =>
      simp only [hds, Option.map_eq_some_iff, Option.ite_none_right_eq_some, Option.some.injEq] at hread
      obtain ⟨n, ⟨hlength, rfl⟩, hn⟩ := hread
      refine ⟨fun hempty => hnil (hempty ▸ rfl), ds, (Text.digits?_eq_some_iff hnil hall).1 hds, hlength,
        Int.ofNat.inj hn⟩

theorem unreadable_iff : Unreadable token ↔ isNumeral token = true ∧ readInt? token = none := by
  refine and_congr_right fun h => ?_
  obtain ⟨hnil, hall⟩ := Text.toList_of_isNumeral h
  rw [Text.readInt?_of_isNumeral h, Text.readNat?, Option.map_eq_none_iff]
  cases hds : Text.digits? token.toList with
  | none =>
    have hvalue : ∃ c ∈ token.toList, digitValue? c = none := by
      by_contra hnone
      push Not at hnone
      obtain ⟨ds, hds'⟩ := (Text.exists_digits?_iff hnil hall).2 hnone
      cases hds.symm.trans hds'
    simp [hvalue]
  | some ds =>
    have hvalue : ¬ ∃ c ∈ token.toList, digitValue? c = none := by
      rintro ⟨c, hc, hnone⟩
      exact (Text.exists_digits?_iff hnil hall).1 ⟨ds, hds⟩ c hc hnone
    have hlength : ds.length = token.length :=
      Text.length_of_map_eq ((Text.digits?_eq_some_iff hnil hall).1 hds)
    simp [hvalue, hlength]

/-- **What a token can do at a list.** -/
theorem step_list (path : Option String) (items : List Node) (token : String) :
    (Unreadable token ∧ step (.list path items) token = .error ⟨token⟩) ∨
    (∃ index, Spells token index ∧ step (.list path items) token = .ok items[index]?) ∨
    (isNumeral token = false ∧ step (.list path items) token = .ok none) := by
  cases h : isNumeral token with
  | false => exact .inr (.inr ⟨rfl, by simp [step, h]⟩)
  | true =>
    cases hread : readInt? token with
    | none => exact .inl ⟨unreadable_iff.2 ⟨h, hread⟩, by simp [step, h, hread]⟩
    | some i =>
      obtain ⟨index, -, rfl⟩ := Option.map_eq_some_iff.1 ((Text.readInt?_of_isNumeral h).symm.trans hread)
      exact .inr (.inl ⟨index, spells_iff.2 ⟨h, hread⟩, by simp [step, h, hread]⟩)

theorem step_eq_some_iff {x : Node} : step node token = .ok (some x) ↔ Leads node token x := by
  cases node with
  | list path items =>
    constructor
    · intro h
      rcases step_list path items token with ⟨-, hstep⟩ | ⟨index, hindex, hstep⟩ | ⟨-, hstep⟩
      · cases hstep.symm.trans h
      · exact .item hindex (Except.ok.inj (hstep.symm.trans h))
      · cases hstep.symm.trans h
    · rintro (_ | ⟨hindex, hx⟩)
      obtain ⟨hnumeral, hread⟩ := spells_iff.1 hindex
      simp [step, hnumeral, hread, hx]
  | map path entries =>
    constructor
    · exact fun h => .value (Except.ok.inj h)
    · rintro (hx | _)
      exact congrArg Except.ok hx
  | _ =>
    constructor
    · intro h
      cases h
    · intro h
      cases h

theorem step_eq_error_iff {e : UnreadableIndex} :
    step node token = .error e ↔ (∃ path items, node = .list path items) ∧ Unreadable token ∧ token = e.token := by
  constructor
  · intro h
    cases node with
    | list path items =>
      rcases step_list path items token with ⟨hread, hstep⟩ | ⟨index, -, hstep⟩ | ⟨-, hstep⟩
      · cases hstep.symm.trans h
        exact ⟨⟨path, items, rfl⟩, hread, rfl⟩
      · cases hstep.symm.trans h
      · cases hstep.symm.trans h
    | _ => cases h
  · rintro ⟨⟨path, items, rfl⟩, hread, rfl⟩
    obtain ⟨hnumeral, hnone⟩ := unreadable_iff.1 hread
    simp [step, hnumeral, hnone]

/-! ## All tokens -/

theorem descend_cons {rest : List String} : descend node (token :: rest) =
    match step node token with
    | .ok (some next) => descend next rest
    | other => other := rfl

theorem descend_eq_some_iff : ∀ {tokens : List String} {node : Node},
    descend node tokens = .ok (some found) ↔ Designates node tokens found
  | [], node => by
    constructor
    · intro h
      cases h
      exact .here
    · rintro ⟨⟩
      rfl
  | token :: rest, node => by
    rw [descend_cons]
    constructor
    · intro h
      split at h
      · rename_i next hnext
        exact .step (step_eq_some_iff.1 hnext) (descend_eq_some_iff.1 h)
      · rename_i hother
        exact absurd h (hother found)
    · rintro (_ | ⟨hnext, hrest⟩)
      rw [step_eq_some_iff.2 hnext]
      exact descend_eq_some_iff.2 hrest

theorem descend_eq_error_iff {e : UnreadableIndex} : ∀ {tokens : List String} {node : Node},
    descend node tokens = .error e ↔ Stuck node tokens e.token
  | [], node => by
    refine ⟨nofun, ?_⟩
    rintro ⟨before, rest, path, items, h, -⟩
    simp at h
  | token :: rest, node => by
    rw [descend_cons]
    constructor
    · intro h
      split at h
      · rename_i next hnext
        obtain ⟨before, after, path, items, rfl, hbefore, hread⟩ := descend_eq_error_iff.1 h
        exact ⟨token :: before, after, path, items, rfl, .step (step_eq_some_iff.1 hnext) hbefore, hread⟩
      · obtain ⟨⟨path, items, rfl⟩, hread, rfl⟩ := step_eq_error_iff.1 h
        exact ⟨[], rest, path, items, rfl, .here, hread⟩
    · rintro ⟨before, after, path, items, htokens, hbefore, hread⟩
      cases hbefore with
      | here =>
        obtain ⟨rfl, rfl⟩ := List.cons.inj htokens
        rw [step_eq_error_iff.2 ⟨⟨path, items, rfl⟩, hread, rfl⟩]
      | step hnext hbefore =>
        obtain ⟨rfl, rfl⟩ := List.cons.inj htokens
        rw [step_eq_some_iff.2 hnext]
        exact descend_eq_error_iff.2 ⟨_, after, path, items, rfl, hbefore, hread⟩

/-! ## Pointers -/

/-- Whether a pointer designates the node. -/
def Finds (document : Node) (pointer : String) (node : Node) : Prop :=
  ∃ tokens, tokens? pointer = some tokens ∧ Designates document tokens node

/-- Whether a pointer comes to a list with a token of digits that spells no index. -/
def Blocked (document : Node) (pointer token : String) : Prop :=
  ∃ tokens, tokens? pointer = some tokens ∧ Stuck document tokens token

theorem resolve_eq_some_iff : resolve document pointer = .ok (some found) ↔ Finds document pointer found := by
  unfold resolve Finds
  cases tokens? pointer with
  | none => simp
  | some tokens => simp [descend_eq_some_iff]

theorem resolve_eq_error_iff : resolve document pointer = .error ⟨token⟩ ↔ Blocked document pointer token := by
  unfold resolve Blocked
  cases tokens? pointer with
  | none => simp
  | some tokens => simp [descend_eq_error_iff]

theorem resolve_eq_none_iff : resolve document pointer = .ok none ↔
    (∀ node, ¬ Finds document pointer node) ∧ ∀ token, ¬ Blocked document pointer token := by
  simp only [← resolve_eq_some_iff, ← resolve_eq_error_iff]
  rcases h : resolve document pointer with ⟨⟨token⟩⟩ | (_ | node) <;> simp

end Pointer

namespace Expansion

open Pointer (Finds Blocked)

variable {document : Node} {reference : String} {s : Expansion}

theorem follow_eq_error {e : ExpandError} (h : target document reference = .error e) (depth : Nat) :
    follow document (depth + 1) reference s = .error e s := by
  rw [follow, h]
  rfl

theorem target_eq_unresolvable (hfinds : ∀ node, Finds document reference node → node = .null)
    (hblocked : ∀ token, ¬ Blocked document reference token) :
    target document reference = .error (.unresolvable reference) := by
  unfold target
  rcases h : Pointer.resolve document reference with ⟨⟨token⟩⟩ | (_ | node)
  · exact absurd (Pointer.resolve_eq_error_iff.1 h) (hblocked token)
  · rfl
  · rw [hfinds node (Pointer.resolve_eq_some_iff.1 h)]

/-- **What is said of a reference that cannot be followed.** -/
theorem followUnlessActive_eq_error (hactive : reference ∉ s.active) (depth : Nat) :
    (Text.startsWith reference "#" = false →
      followUnlessActive (follow document depth) reference s = .error (.remote reference) s) ∧
    (Text.startsWith reference "#" = true →
      ((∀ node, Finds document reference node → node = .null) → (∀ token, ¬ Blocked document reference token) →
        followUnlessActive (follow document (depth + 1)) reference s = .error (.unresolvable reference) s) ∧
      ∀ token, Blocked document reference token →
        followUnlessActive (follow document (depth + 1)) reference s = .error (.unreadableIndex token) s) := by
  refine ⟨fun hstart => ?_, fun hstart => ⟨fun hfinds hblocked => ?_, fun token hblocked => ?_⟩⟩
  · simp [followUnlessActive, hstart]
  · have h := follow_eq_error (s := s) (target_eq_unresolvable hfinds hblocked) depth
    simp [followUnlessActive, hstart, hactive, h]
  · have htarget : target document reference = .error (.unreadableIndex token) := by
      rw [target, Pointer.resolve_eq_error_iff.2 hblocked]
    have h := follow_eq_error (s := s) htarget depth
    simp [followUnlessActive, hstart, hactive, h]

end Expansion

namespace Pointer

open Expansion (follow followUnlessActive)

/-- **Looking up a pointer** answers with the node that it designates, and with nothing if it designates none; it fails exactly
if it comes to a list with digits that spell no index.  So a reference that designates nothing is always reported as such, but
for the references that fail in this way. -/
theorem lookup_answered (document : Node) (pointer : String) :
    (∀ node, resolve document pointer = .ok (some node) ↔ Finds document pointer node) ∧
    (resolve document pointer = .ok none ↔
      (∀ node, ¬ Finds document pointer node) ∧ ∀ token, ¬ Blocked document pointer token) ∧
    (∀ token, resolve document pointer = .error ⟨token⟩ ↔ Blocked document pointer token) ∧
    ∀ (depth : Nat) (s : Expansion), pointer ∉ s.active →
      (Text.startsWith pointer "#" = false →
        followUnlessActive (follow document depth) pointer s = .error (.remote pointer) s) ∧
      (Text.startsWith pointer "#" = true →
        ((∀ node, Finds document pointer node → node = .null) → (∀ token, ¬ Blocked document pointer token) →
          followUnlessActive (follow document (depth + 1)) pointer s = .error (.unresolvable pointer) s) ∧
        ∀ token, Blocked document pointer token →
          followUnlessActive (follow document (depth + 1)) pointer s = .error (.unreadableIndex token) s) :=
  ⟨fun _ => resolve_eq_some_iff, resolve_eq_none_iff, fun _ => resolve_eq_error_iff,
    fun depth _ hactive => Expansion.followUnlessActive_eq_error hactive depth⟩

/-- Two items, and a reference to one that is not there. -/
def twoItems (reference : String) : Node :=
  .map none [("items", .list none [.str "a", .str "b"]), ("first", .map none [("$ref", .str reference)])]

theorem twoItems_looked_up : Finds (twoItems "#/items/x") "#/items/١" (.str "b") ∧
    (∀ node, ¬ Finds (twoItems "#/items/x") "#/items/x" node) ∧
    followUnlessActive (follow (twoItems "#/items/x") 1) "#/items/x" .empty =
      .error (.unresolvable "#/items/x") .empty := by
  have hdigit : resolve (twoItems "#/items/x") "#/items/١" = .ok (some (.str "b")) := by decide +kernel
  have hletter : resolve (twoItems "#/items/x") "#/items/x" = .ok none := by decide +kernel
  obtain ⟨-, hnone, -, hfollow⟩ := lookup_answered (twoItems "#/items/x") "#/items/x"
  obtain ⟨hfinds, hblocked⟩ := hnone.1 hletter
  exact ⟨((lookup_answered (twoItems "#/items/x") "#/items/١").1 (.str "b")).1 hdigit, hfinds,
    ((hfollow 0 .empty (by decide)).2 (by decide +kernel)).1 (fun node h => absurd h (hfinds node)) hblocked⟩

/-- **A superscript counts as a digit, but is no number**: there is no such item, and instead of saying so, looking it up fails,
and with it the expansion of the document that refers to it. -/
theorem superscript_fails : resolve (twoItems "#/items/²") "#/items/²" = .error ⟨"²"⟩ ∧
    (∀ node, ¬ Finds (twoItems "#/items/²") "#/items/²" node) ∧
    (twoItems "#/items/²").expand = .error (.unreadableIndex "²") := by
  have hfails : resolve (twoItems "#/items/²") "#/items/²" = .error ⟨"²"⟩ := by decide +kernel
  refine ⟨hfails, fun node hfinds => ?_, by decide +kernel⟩
  cases hfails.symm.trans (resolve_eq_some_iff.2 hfinds)

end Pointer
end TypedClient
