import Mathlib.Data.Finset.Prod
import Mathlib.Data.Finset.Powerset
import TypedClient.Proofs.Expansion.Calls
import TypedClient.Proofs.Expansion.History
import TypedClient.Proofs.Expansion.Met
/-!
# Ending — when an expansion comes to an end

There are finitely many places and finitely many references.  So there are finitely many states to follow a reference from, as far
as a walk can tell them apart, and a walk without end follows some reference from a state and, inside that, follows it from the same
state again.  That such a walk has no end is clear; so the expansion of a document comes to an end exactly when no call recurs
(`expand_answered_iff`).

A reference is not followed while its place is being expanded.  But a place that is come to inside itself, over a place above it, is
no longer active when the inner expansion of it is done, and the outer one goes on without its mark: then a call can recur
(`lostMark_endless`).
-/
namespace TypedClient
namespace Expansion

open Outcome (Ended)
open Relation (TransGen ReflTransGen)

variable {document : Node}

/-! ## The same state again -/

theorem expandParts_same {f : String → Step Node} : ∀ (parts : List (String × Node)) (s t : Expansion),
    (∀ q x, (q, x) ∈ parts → ∀ s t, Same s t → Alike Same s t (expandNode f x q s) (expandNode f x q t)) →
    Same s t → Alike Same s t (expandParts f parts s) (expandParts f parts t)
  | [], _, _, _, h => Alike.ok [] h
  | (q, x) :: rest, s, t, hx, h => by
    rw [expandParts, expandParts]
    refine (hx q x List.mem_cons_self s t h).andThen fun y s' t' _ _ h' => ?_
    exact (expandParts_same rest s' t' (fun q x hm => hx q x (List.mem_cons_of_mem _ hm)) h').map (y :: ·)

theorem expandNode_same {f : String → Step Node} (hf : ∀ r s t, Same s t → Alike Same s t (f r s) (f r t)) :
    ∀ (node : Node) (path : String) (s t : Expansion), Same s t →
      Alike Same s t (expandNode f node path s) (expandNode f node path t) := by
  refine parts_induction fun node ih path s t h => ?_
  have hparts : ∀ q x, (q, x) ∈ (form node path).parts → ∀ s t, Same s t →
      Alike Same s t (expandNode f x q s) (expandNode f x q t) := fun q x hm => ih path q x hm q
  have hbegin := same_congruence.begin path h
  have hlookup := (h.2 path).symm
  cases expandNode_visit f node path s with
  | leaf hform he =>
    rw [he, expandNode_leaf hform]
    exact Alike.ok node h
  | known v hform hk he =>
    rw [he, expandNode_known hform (hlookup.trans hk)]
    exact Alike.ok v h
  | whole parts build hform hk he =>
    rw [hform] at hparts
    rw [he, expandNode_whole hform (hlookup.trans hk)]
    exact ((expandParts_same parts _ _ hparts hbegin).map build).conclude same_congruence
  | remote reference keys siblings hform hk hl he =>
    rw [he, expandNode_remote hform (hlookup.trans hk) hl]
    exact (Alike.error _ hbegin).conclude same_congruence
  | cut reference keys siblings hform hk hl ha he =>
    rw [he, expandNode_cut hform (hlookup.trans hk) hl ((hbegin.1 reference).1 ha)]
    exact (Alike.stub same_congruence (stub reference) hbegin).conclude same_congruence
  | followed reference keys siblings hform hk hl ha he =>
    rw [hform] at hparts
    rw [he, expandNode_followed hform (hlookup.trans hk) hl fun hm => ha ((hbegin.1 reference).2 hm)]
    refine Alike.conclude same_congruence ((hf reference _ _ hbegin).andThen fun v s' t' _ _ h' => ?_)
    cases v with
    | map p found => exact (expandParts_same siblings s' t' hparts h').map (merged reference found keys)
    | _ => exact Alike.ok _ h'

/-- **A reference that is followed from the same state comes to the same**, at the same depth. -/
theorem follow_same : ∀ (depth : Nat) (r : String) (s t : Expansion), Same s t →
    Alike Same s t (follow document depth r s) (follow document depth r t)
  | 0, r, s, t, h => by
    rw [follow_zero, follow_zero]
    exact Alike.error .endless h
  | depth + 1, r, s, t, h => by
    cases ht : target document r with
    | error e =>
      rw [follow_error ht, follow_error ht]
      exact Alike.error e h
    | ok node =>
      rw [follow_target ht, follow_target ht]
      exact expandNode_same (follow_same depth) node r s t h

/-! ## Calls that recur -/

/-- **Whether a call recurs**: inside it the same reference is followed from the same state. -/
def Recurs (document : Node) (c : Call) : Prop :=
  ∃ d, TransGen (Calls document) c d ∧ d.reference = c.reference ∧ Same d.state c.state

/-- The calls inside a call that ends come to an end at a smaller depth. -/
theorem ended_of_transGen {c d : Call} {depth : Nat} (h : TransGen (Calls document) c d)
    (hend : Ended (c.run document (depth + 1))) : Ended (d.run document depth) := by
  induction h with
  | single hc => exact (run_of_calls hc hend).1
  | @tail b e _ hc ih =>
    have hmore : Ended (Call.run document (depth + 1) b) := by
      rw [Call.run, follow_mono (Nat.le_succ depth) b.reference b.state ih]
      exact ih
    exact (run_of_calls hc hmore).1

/-- **A call that recurs has no end.** -/
theorem not_ended_of_recurs {c : Call} (h : Recurs document c) : ∀ depth, ¬ Ended (c.run document depth)
  | 0 => fun hend => hend rfl
  | depth + 1 => fun hend => by
    obtain ⟨d, htrans, hr, hsame⟩ := h
    have hd := ended_of_transGen htrans hend
    refine not_ended_of_recurs ⟨d, htrans, hr, hsame⟩ depth ?_
    have halike := @follow_same document depth c.reference d.state c.state hsame
    rw [Ended, Call.run, ← halike.answer_eq, ← hr]
    exact hd

/-! ## Calls without end -/

/-- A call that is endless at a depth asks for as many calls inside one another. -/
theorem exists_chain : ∀ (depth : Nat) (c : Call), (c.run document depth).answer = .error .endless →
    ∃ f : Nat → Call, f 0 = c ∧ ∀ i < depth, Calls document (f i) (f (i + 1))
  | 0, c, _ => ⟨fun _ => c, rfl, fun i hi => absurd hi (Nat.not_lt_zero i)⟩
  | depth + 1, c, h => by
    rcases run_blames h with ⟨r, hr⟩ | ht | ⟨d, hd, he⟩
    · cases hr
    · exact absurd ht (target_ne_endless document c.reference)
    · obtain ⟨f, hf, hchain⟩ := exists_chain depth d he
      refine ⟨fun i => Nat.casesOn i c f, rfl, fun i hi => ?_⟩
      cases i with
      | zero =>
        show Calls document c (f 0)
        rw [hf]
        exact hd
      | succ i => exact hchain i (by omega)

theorem transGen_of_chain {f : Nat → Call} {n : Nat} (h : ∀ i < n, Calls document (f i) (f (i + 1))) :
    ∀ i j, i < j → j ≤ n → TransGen (Calls document) (f i) (f j) := by
  intro i j hij
  induction hij with
  | refl => exact fun hn => .single (h i hn)
  | @step j hlt ih => exact fun hn => .tail (ih (by omega)) (h j hn)

/-! ## States that calls are made from -/

/-- **A state that an expansion of the document comes to**: sound, and with places that are met. -/
structure Regular (document : Node) (s : Expansion) : Prop where
  sound : Sound document s
  active : ∀ q ∈ s.active, ∃ x, Met document x q
  known : KnownMet document s

namespace Regular

variable {s : Expansion}

theorem empty (document : Node) : Regular document .empty :=
  ⟨sound_empty document, fun _ hq => absurd hq List.not_mem_nil, fun _ _ hv => by cases hv⟩

theorem begin {node : Node} {path : String} (h : Regular document s) (hm : Met document node path) :
    Regular document (s.begin path) := by
  refine ⟨sound_of_finished h.sound rfl, fun q hq => ?_, knownMet_of_finished h.known rfl⟩
  rcases (mem_begin path q s).1 hq with rfl | hq
  · exact ⟨node, hm⟩
  · exact h.active q hq

theorem within (hd : document.Proper) {depth : Nat} {node v : Node} {path : String} {t : Expansion} (h : Regular document s)
    (hm : Met document node path) (hr : within document depth node path s = .ok v t) : Regular document t := by
  have hacc := within_accounted hd depth node path s (met_resolve hd hm)
  have hknown := expandNode_knownMet hd (follow_knownMet hd depth) node path s hm h.known
  rw [Expansion.within] at hr
  rw [hr] at hknown
  rw [Expansion.within, hr] at hacc
  exact ⟨hacc.sound h.sound, fun q hq => h.active q (hacc.active_sub q hq), hknown⟩

theorem follow (hd : document.Proper) {depth : Nat} {r : String} {v : Node} {t : Expansion} (h : Regular document s)
    (hm : r ∈ references document) (hr : follow document depth r s = .ok v t) : Regular document t := by
  have hacc := follow_accounted hd depth r s
  have hknown := follow_knownMet hd depth r hm s h.known
  rw [hr] at hacc hknown
  exact ⟨hacc.sound h.sound, fun q hq => h.active q (hacc.active_sub q hq), hknown⟩

end Regular

/-- **What is asked for is a reference of the document that is not active**, from a state the expansion comes to. -/
theorem asks_regular (hd : document.Proper) {parts : List (String × Node)} {s : Expansion} {c : Call}
    (h : Asks document parts s c) (hparts : ∀ q x, (q, x) ∈ parts → Met document x q) (hs : Regular document s) :
    c.reference ∈ references document ∧ c.reference ∉ c.state.active ∧ Regular document c.state := by
  induction h with
  | later depth hx _ ih =>
    exact ih (fun q x hm => hparts q x (List.mem_cons_of_mem _ hm)) (hs.within hd (hparts _ _ List.mem_cons_self) hx)
  | here hf _ _ ha =>
    have hm := hparts _ _ List.mem_cons_self
    exact ⟨met_reference hd hm hf, ha, hs.begin hm⟩
  | part hf _ _ ih =>
    have hm := hparts _ _ List.mem_cons_self
    exact ih (fun q x hx => met_part hm (by rw [hf]; exact hx)) (hs.begin hm)
  | sibling depth hf _ _ _ hr _ ih =>
    have hm := hparts _ _ List.mem_cons_self
    exact ih (fun q x hx => met_part hm (by rw [hf]; exact hx)) ((hs.begin hm).follow hd (met_reference hd hm hf) hr)

/-- **A call that the expansion of the document makes**, at the outermost or inside another one. -/
inductive Reached (document : Node) : Call → Prop where
  | first {c : Call} (h : Asks document [("#", document)] .empty c) : Reached document c
  | next {c d : Call} (h : Reached document c) (hc : Calls document c d) : Reached document d

theorem reached_regular (hd : document.Proper) {c : Call} (h : Reached document c) :
    c.reference ∈ references document ∧ c.reference ∉ c.state.active ∧ Regular document c.state := by
  have single : ∀ {path : String} {node : Node}, Met document node path →
      ∀ q x, (q, x) ∈ [(path, node)] → Met document x q := by
    intro path node hm q x hx
    obtain ⟨rfl, rfl⟩ := Prod.mk.inj (List.mem_singleton.1 hx)
    exact hm
  induction h with
  | first h => exact asks_regular hd h (single (.inl .self)) (Regular.empty document)
  | next _ hc ih =>
    obtain ⟨hr, -, hs⟩ := ih
    obtain ⟨node, ht, ha⟩ := hc
    exact asks_regular hd ha (single (met_target hr ht)) hs

theorem reached_transGen {c d : Call} (h : Reached document c) (hcd : TransGen (Calls document) c d) : Reached document d := by
  induction hcd with
  | single hc => exact .next h hc
  | tail _ hc ih => exact .next ih hc

/-! ## Finitely many calls -/

open Classical in
/-- All that a walk can tell of a call: its reference, and of the places that are met, which are active and which remembered. -/
noncomputable def key (document : Node) (c : Call) : String × Finset String × Finset String :=
  (c.reference, (met_finite document).toFinset.filter (· ∈ c.state.active),
    (met_finite document).toFinset.filter (fun q => c.state.finished.lookup q ≠ none))

theorem sound_unique {s t : Expansion} (hs : Sound document s) (ht : Sound document t) {q : String} {v w : Node}
    (hv : s.finished.lookup q = some v) (hw : t.finished.lookup q = some w) : v = w := by
  obtain ⟨d, hd⟩ := hs q v hv
  obtain ⟨e, he⟩ := ht q w hw
  have h1 := inlineReference_mono (Nat.le_max_left d e) (by rw [hd]; simp)
  have h2 := inlineReference_mono (Nat.le_max_right d e) (by rw [he]; simp)
  rw [h1, hd, he] at h2
  exact Except.ok.inj h2

/-- **A walk cannot tell two calls with the same key apart.** -/
theorem same_of_key {c d : Call} (hc : Regular document c.state) (hd : Regular document d.state)
    (h : key document c = key document d) : c.reference = d.reference ∧ Same c.state d.state := by
  obtain ⟨hr, hrest⟩ := Prod.mk.inj h
  obtain ⟨hactive, hknown⟩ := Prod.mk.inj hrest
  have hmem := fun q => Finset.ext_iff.1 hactive q
  have hmem' := fun q => Finset.ext_iff.1 hknown q
  simp only [Finset.mem_filter, Set.Finite.mem_toFinset, Set.mem_ofPred_eq] at hmem hmem'
  refine ⟨hr, fun q => ⟨fun hq => ((hmem q).1 ⟨hc.active q hq, hq⟩).2, fun hq => ((hmem q).2 ⟨hd.active q hq, hq⟩).2⟩, ?_⟩
  intro q
  cases hv : c.state.finished.lookup q with
  | some v =>
    cases hw : d.state.finished.lookup q with
    | some w => rw [sound_unique hc.sound hd.sound hv hw]
    | none =>
      have := ((hmem' q).1 ⟨hc.known q v hv, by rw [hv]; simp⟩).2
      exact absurd hw this
  | none =>
    cases hw : d.state.finished.lookup q with
    | some w =>
      have := ((hmem' q).2 ⟨hd.known q w hw, by rw [hw]; simp⟩).2
      exact absurd hv this
    | none => rfl

open Classical in
/-- **There is a depth at which a call that is endless recurs or makes one that does.** -/
theorem exists_recurs (hd : document.Proper) : ∃ depth, ∀ c, Reached document c →
    (c.run document depth).answer = .error .endless → ∃ d, Reached document d ∧ Recurs document d := by
  let keys := (references document).toFinset ×ˢ (met_finite document).toFinset.powerset ×ˢ
    (met_finite document).toFinset.powerset
  refine ⟨keys.card, fun c hc hend => ?_⟩
  obtain ⟨f, rfl, hchain⟩ := exists_chain keys.card c hend
  have hreached : ∀ i ≤ keys.card, Reached document (f i) := by
    intro i hi
    rcases Nat.eq_zero_or_pos i with rfl | hpos
    · exact hc
    · exact reached_transGen hc (transGen_of_chain hchain 0 i hpos hi)
  have hmaps : Set.MapsTo (fun i => key document (f i)) (Finset.range (keys.card + 1)) keys := by
    intro i hi
    have hr := (reached_regular hd (hreached i (Nat.lt_succ_iff.1 (Finset.mem_range.1 hi)))).1
    simp only [keys, key, Finset.coe_product, Set.mem_prod, Finset.mem_coe, List.mem_toFinset, Finset.mem_powerset]
    exact ⟨hr, Finset.filter_subset _ _, Finset.filter_subset _ _⟩
  obtain ⟨i, hi, j, hj, hne, heq⟩ :=
    Finset.exists_ne_map_eq_of_card_lt_of_maps_to (by rw [Finset.card_range]; exact Nat.lt_succ_self _) hmaps
  have hrecurs : ∀ i j, i < j → j ≤ keys.card → key document (f i) = key document (f j) → Recurs document (f i) := by
    intro i j hij hj heq
    obtain ⟨hr, hsame⟩ := same_of_key (reached_regular hd (hreached j hj)).2.2
      (reached_regular hd (hreached i (by omega))).2.2 heq.symm
    exact ⟨f j, transGen_of_chain hchain i j hij hj, hr, hsame⟩
  have hi : i ≤ keys.card := Nat.lt_succ_iff.1 (Finset.mem_range.1 hi)
  have hj : j ≤ keys.card := Nat.lt_succ_iff.1 (Finset.mem_range.1 hj)
  rcases Nat.lt_or_gt_of_ne hne with hlt | hgt
  · exact ⟨f i, hreached i hi, hrecurs i j hlt hj heq⟩
  · exact ⟨f j, hreached j hj, hrecurs j i hgt hi heq.symm⟩

/-! ## Expansions that come to an end -/

/-- Whether a step came to a value, or to a reference that is remote or designates nothing. -/
def Answered {α : Type} (r : Outcome α) : Prop :=
  ∀ e, r.answer = .error e → (∃ reference, e = .remote reference) ∨ ∃ reference, e = .unresolvable reference

theorem run_of_reached {c : Call} (h : Reached document c) {depth : Nat}
    (hend : Ended (within document depth document "#" .empty)) :
    Ended (c.run document depth) ∧ ∀ e, (c.run document depth).answer = .error e →
      Outcome.answer (within document depth document "#" .empty) = .error e := by
  induction h with
  | first ha =>
    have hend' : Ended (expandParts (follow document depth) [("#", document)] .empty) :=
      fun h => hend ((answer_single document "#" .empty).1 h)
    exact ⟨ended_of_asks ha hend', fun e he => (answer_single document "#" .empty).1 (answer_of_asks ha hend' he)⟩
  | @next b c _ hc ih =>
    obtain ⟨hb, hberror⟩ := ih
    obtain ⟨less, rfl⟩ : ∃ less, depth = less + 1 := Nat.exists_eq_succ_of_ne_zero fun h0 => hb (by rw [h0]; rfl)
    obtain ⟨hless, herror⟩ := run_of_calls hc hb
    have hsame : c.run document (less + 1) = c.run document less :=
      follow_mono (Nat.le_succ less) c.reference c.state hless
    rw [hsame]
    exact ⟨hless, fun e he => hberror e (herror e he)⟩

/-- An error that is neither remote nor the depth's is that of a target. -/
theorem exists_target_error {e : ExpandError} (he : e ≠ .endless) : ∀ (depth : Nat) (c : Call), Reached document c →
    (c.run document depth).answer = .error e →
    (∃ reference, e = .remote reference) ∨ ∃ d, Reached document d ∧ target document d.reference = .error e
  | 0, c, _, h => by
    cases h
    exact absurd rfl he
  | depth + 1, c, hc, h => by
    rcases run_blames h with hr | ht | ⟨d, hd, h⟩
    · exact .inl hr
    · exact .inr ⟨c, hc, ht⟩
    · exact exists_target_error he depth d (.next hc hd) h

/-- **When the expansion of a document is answered**: exactly when every reference that is followed can be read and no call recurs.
None recurs if the place of every reference stays active while it is expanded. -/
theorem expand_answered_iff (document : Node) (hd : document.Proper) :
    ((∃ depth, Answered (within document depth document "#" .empty)) ↔
      ∀ c, Reached document c →
        (∀ token, target document c.reference ≠ .error (.unreadableIndex token)) ∧ ¬ Recurs document c) ∧
    ((∀ c d, Reached document c → TransGen (Calls document) c d → c.reference ∈ d.state.active) →
      ∀ c, Reached document c → ¬ Recurs document c) := by
  refine ⟨⟨?_, fun h => ?_⟩, ?_⟩
  · rintro ⟨depth, ha⟩ c hc
    have hend : Ended (within document depth document "#" .empty) := by
      intro h
      rcases ha _ h with ⟨_, h⟩ | ⟨_, h⟩ <;> cases h
    obtain ⟨hrun, herror⟩ := run_of_reached hc hend
    refine ⟨fun token ht => ?_, fun hr => not_ended_of_recurs hr depth hrun⟩
    obtain ⟨less, rfl⟩ : ∃ less, depth = less + 1 := Nat.exists_eq_succ_of_ne_zero fun h0 => hrun (by rw [h0]; rfl)
    have hunreadable := herror (.unreadableIndex token) (by rw [Call.run, follow_error ht]; rfl)
    rcases ha _ hunreadable with ⟨_, h⟩ | ⟨_, h⟩ <;> cases h
  · obtain ⟨depth, hrecurs⟩ := exists_recurs hd
    refine ⟨depth, fun e he => ?_⟩
    rcases within_blames document "#" .empty he [] with hr | ⟨c, hc, hce⟩
    · exact .inl hr
    · have hreached := Reached.first hc
      cases e with
      | remote r => exact .inl ⟨r, rfl⟩
      | unresolvable r => exact .inr ⟨r, rfl⟩
      | unreadableIndex token =>
        rcases exists_target_error (by simp) depth c hreached hce with ⟨_, h⟩ | ⟨d, hd, ht⟩
        · cases h
        · exact absurd ht ((h d hd).1 token)
      | endless =>
        obtain ⟨d, hd, hr⟩ := hrecurs c hreached hce
        exact absurd hr (h d hd).2
  · rintro hactive c hc ⟨d, htrans, hr, -⟩
    have hopen := (reached_regular hd (reached_transGen hc htrans)).2.1
    rw [hr] at hopen
    exact hopen (hactive c d hc htrans)

theorem roundabout_answered : (∃ depth, Answered (within roundabout depth roundabout "#" .empty)) ∧
    ∀ c, Reached roundabout c → ¬ Recurs roundabout c := by
  have hok : (Outcome.answer (within roundabout 2 roundabout "#" .empty)).isOk = true := by decide +kernel
  have ha : ∃ depth, Answered (within roundabout depth roundabout "#" .empty) := by
    refine ⟨2, fun e he => ?_⟩
    rw [he] at hok
    cases hok
  exact ⟨ha, fun c hc => ((expand_answered_iff roundabout (by decide)).1.1 ha c hc).2⟩

/-- What refers to the place above it and to its own. -/
def circle : Node := .map none [("a", .map none [("$ref", .str "#/x")]), ("b", .map none [("$ref", .str "#/x/y")])]

/-- A place that refers to the one above it and to itself, and is referred to from before it. -/
def lostMark : Node :=
  .map none [("first", .map none [("$ref", .str "#/x/y")]), ("x", .map none [("y", circle)])]

/-- What the place above comes to inside the place. -/
def above : Node :=
  .map (some "#/x") [("$ref", .str "#/x"), ("y", .map (some "#/x/y") [("a", stub "#/x"), ("b", stub "#/x/y")])]

/-- **Inside the place its mark is lost**: over the place above, it is expanded once more and then no longer active, so that the
reference to itself is followed, again and again. -/
theorem lostMark_endless : ¬ ∃ depth, Ended (within lostMark depth lostMark "#" .empty) := by
  rintro ⟨depth, hend⟩
  let outer : Call := ⟨"#/x/y", ⟨["#/first", "#"], [], 0⟩⟩
  let inner : Nat → Call := fun stubs => ⟨"#/x/y", ⟨["#/x/y/b", "#/first", "#"], [], stubs⟩⟩
  have htarget : target lostMark "#/x/y" = .ok circle := rfl
  -- behind the place above, neither the place nor the reference to it is active
  have hfirst : within lostMark 5 (.map none [("$ref", .str "#/x")]) "#/x/y/a" ⟨["#/x/y", "#/first", "#"], [], 0⟩ =
      .ok above ⟨["#/first", "#"], [], 2⟩ := by rfl
  have hagain : within lostMark 5 (.map none [("$ref", .str "#/x")]) "#/x/y/a" ⟨["#/x/y", "#/x/y/b", "#/first", "#"], [], 2⟩ =
      .ok above ⟨["#/first", "#"], [], 4⟩ := by rfl
  have houter : Reached lostMark outer := .first (.part rfl rfl (.here rfl rfl rfl (by decide)))
  have hinner : Calls lostMark outer (inner 2) :=
    ⟨circle, htarget, .part rfl rfl (.later 5 hfirst (.here rfl rfl rfl (by decide)))⟩
  have hrecurs : Recurs lostMark (inner 2) :=
    ⟨inner 4, .single ⟨circle, htarget, .part rfl rfl (.later 5 hagain (.here rfl rfl rfl (by decide)))⟩, rfl,
      fun _ => Iff.rfl, fun _ => rfl⟩
  exact not_ended_of_recurs hrecurs depth (run_of_reached (.next houter hinner) hend).1

end Expansion
end TypedClient
