import TypedClient.Proofs.Expansion.Stamps
import TypedClient.Schema.Read
/-!
# Canonical — what a canonical path leads back to

The path of an expanded container is a pointer into the source.  What the pointer designates may be a reference; what that leads to
over references alone is the node that the container shows (`Shows`): it has the same items or the same keys, and the same scalars
under them.  The mark of a reference is one more key, and it comes first, so that a key `$ref` that the node itself has may move to
the front.

Every expansion is one of the things that a node can come to (`Expands`), and the proof goes by induction on those.
-/
namespace TypedClient
namespace Expansion

open Relation (TransGen ReflTransGen)
open Schema (isScalar loneReference?)

/-! ## What is shown -/

/-- Whether a node is a mapping of nothing but text under `$ref`. -/
def isMark (node : Node) : Bool := (node.entries?.bind loneReference?).isSome

theorem isMark_iff (node : Node) : isMark node = true ↔ ∃ p text, node = .map p [(referenceKey, .str text)] := by
  constructor
  · intro h
    cases node with
    | map p entries =>
      unfold isMark Node.entries? at h
      rw [Option.bind_some] at h
      unfold loneReference? at h
      split at h
      · exact ⟨p, _, rfl⟩
      · cases h
    | _ => cases h
  · rintro ⟨p, text, rfl⟩
    rfl

/-- **Whether a mapping has the keys of another in their order**, or `$ref` and then the others in their order.  If the other has no
key `$ref`, there is text under it. -/
def SameKeys (entries out : List (String × Node)) : Prop :=
  out.map (·.1) = entries.map (·.1) ∨
    (out.map (·.1) = referenceKey :: (entries.map (·.1)).filter (· != referenceKey) ∧
      (entries.lookup referenceKey = none → ∃ text, out.lookup referenceKey = some (.str text)))

/-- **Whether an expanded container shows a node**: it is of the same kind, has as many items or the same keys, and every scalar of the
node stands at its place. -/
inductive Shows : Node → Node → Prop
  | list {p q : Option String} {items out : List Node} (length : out.length = items.length)
      (scalars : ∀ (i : Nat) (x : Node), items[i]? = some x → isScalar x = true → out[i]? = some x) :
      Shows (.list p items) (.list q out)
  | map {p q : Option String} {entries out : List (String × Node)} (keys : SameKeys entries out)
      (scalars : ∀ (key : String) (x : Node), entries.lookup key = some x → isScalar x = true → out.lookup key = some x) :
      Shows (.map p entries) (.map q out)

/-- **Whether the path of a node leads back to what the node shows**, over references if there are any. -/
def LeadsBack (document n : Node) : Prop :=
  ∃ path raw shown, n.path? = some path ∧ Pointer.resolve document path = .ok (some raw) ∧
    settle document raw = some shown ∧ refersTo shown = none ∧ Shows shown n

/-! ## References that lead somewhere -/

section
variable {document node next shown : Node} {r q : String}

theorem acc_leads : ∀ (fuel : Nat) {node : Node} {r : String}, settleIn document fuel node = some shown →
    refersTo node = some r → Acc (fun b a => Leads document a b) r
  | 0, _, _, h, _ => by cases h
  | fuel + 1, node, r, h, hr => by
    refine ⟨_, ?_⟩
    rintro q ⟨next, ht, hq⟩
    rw [settleIn_of_target hr ht] at h
    exact acc_leads fuel h hq

theorem acc_of_transGen (h : Acc (fun b a => Leads document a b) r) (hq : TransGen (Leads document) r q) :
    Acc (fun b a => Leads document a b) q := by
  induction hq with
  | single hlead => exact h.inv hlead
  | tail _ hlead ih => exact ih.inv hlead

theorem not_transGen_self (h : Acc (fun b a => Leads document a b) r) : ¬ TransGen (Leads document) r r := by
  induction h with
  | intro r _ ih =>
    intro hloop
    obtain ⟨q, hrq, hqr⟩ := TransGen.head'_iff.1 hloop
    exact ih q hrq (TransGen.tail' hqr hrq)

/-- **A reference leads to what its target leads to, if that leads somewhere**: then the references on the way are all different. -/
theorem settle_of_target (hr : refersTo node = some r) (hm : r ∈ references document) (ht : target document r = .ok next)
    (hs : settle document next = some shown) : settle document node = some shown := by
  have hmore : settleIn document ((references document).length + 2) node = some shown := by
    rw [settleIn_of_target hr ht]
    exact hs
  -- otherwise a way goes on for longer than there are references, and none is on it twice
  by_contra hne
  have hunstable : settleIn document ((references document).length + 1) node ≠
      settleIn document ((references document).length + 2) node := by
    rw [hmore]
    exact hne
  have hmem : ∀ q, refersTo node = some q → q ∈ references document := by
    intro q hq
    rw [hr] at hq
    cases hq
    exact hm
  obtain ⟨rs, hlen, hpair, hall⟩ := exists_way_of_unstable hunstable hmem
  have hacc : Acc (fun b a => Leads document a b) r := acc_leads _ hmore hr
  have hnodup : rs.Nodup := by
    refine hpair.imp_of_mem fun {a b} ha _ hab heq => ?_
    obtain ⟨-, r', hr', hway⟩ := hall a ha
    rw [hr] at hr'
    cases hr'
    have ha' : Acc (fun b a => Leads document a b) a := by
      rcases hway with rfl | hway
      · exact hacc
      · exact acc_of_transGen hacc hway
    exact not_transGen_self ha' (heq ▸ hab)
  have hle := (hnodup.subperm fun q hq => (hall q hq).1).length_le
  omega

end

/-! ## Keys -/

section
variable {entries changes found : List (String × Node)} {key : String}

theorem keys_setEntry (key : String) (v : Node) : ∀ entries : List (String × Node),
    (setEntry entries key v).map (·.1) = if key ∈ entries.map (·.1) then entries.map (·.1) else entries.map (·.1) ++ [key]
  | [] => rfl
  | (k, x) :: rest => by
    rw [setEntry]
    by_cases hk : k = key
    · rw [if_pos hk, if_pos (by simp [hk]), List.map_cons, List.map_cons, hk]
    · have hmem : key ∈ ((k, x) :: rest).map (·.1) ↔ key ∈ rest.map (·.1) := by
        simp [Ne.symm hk]
      rw [if_neg hk, List.map_cons, keys_setEntry key v rest]
      simp only [hmem]
      split <;> rfl

/-- **Changes keep the keys that are there, in their order**, and add the others behind, in theirs. -/
theorem keys_setEntries : ∀ changes entries : List (String × Node), (changes.map (·.1)).Nodup →
    (setEntries entries changes).map (·.1) =
      entries.map (·.1) ++ (changes.map (·.1)).filter fun key => decide (key ∉ entries.map (·.1))
  | [], entries, _ => by simp [setEntries]
  | (key, v) :: rest, entries, hn => by
    rw [List.map_cons, List.nodup_cons] at hn
    have ih := keys_setEntries rest (setEntry entries key v) hn.2
    rw [setEntries, List.foldl_cons]
    rw [setEntries, keys_setEntry] at ih
    rw [ih, List.map_cons]
    by_cases hk : key ∈ entries.map (·.1)
    · rw [if_pos hk, List.filter_cons_of_neg (by simpa using hk)]
    · -- the key is new now, and no later change has it
      have hother : ∀ k ∈ rest.map (·.1), decide (k ∉ entries.map (·.1) ++ [key]) = decide (k ∉ entries.map (·.1)) := by
        intro k hm
        have hne : k ≠ key := fun h => hn.1 (h ▸ hm)
        simp [hne]
      rw [if_neg hk, List.filter_cons_of_pos (by simpa using hk), List.filter_congr hother, List.append_assoc]
      rfl

/-- **The mark of a reference comes first.** -/
theorem keys_marked (r : String) (hn : (found.map (·.1)).Nodup) :
    (setEntries [(referenceKey, .str r)] found).map (·.1) =
      referenceKey :: (found.map (·.1)).filter (· != referenceKey) := by
  rw [keys_setEntries found _ hn]
  have hother : (fun key => decide (key ∉ [(referenceKey, Node.str r)].map (·.1))) = (· != referenceKey) := by
    funext key
    simp [bne, Bool.beq_eq_decide_eq]
  rw [hother]
  rfl

theorem mem_setEntry {e : String × Node} {v : Node} : ∀ {entries : List (String × Node)}, e ∈ setEntry entries key v →
    e = (key, v) ∨ e ∈ entries
  | [], h => .inl (List.mem_singleton.1 h)
  | (k, x) :: rest, h => by
    rw [setEntry] at h
    split at h
    · rcases List.mem_cons.1 h with h | h
      · exact .inl h
      · exact .inr (List.mem_cons_of_mem _ h)
    · rcases List.mem_cons.1 h with h | h
      · exact .inr (h ▸ List.mem_cons_self)
      · rcases mem_setEntry h with h | h
        · exact .inl h
        · exact .inr (List.mem_cons_of_mem _ h)

theorem mem_setEntries {e : String × Node} : ∀ {changes entries : List (String × Node)}, e ∈ setEntries entries changes →
    e ∈ changes ∨ e ∈ entries
  | [], _, h => .inr h
  | (key, v) :: rest, entries, h => by
    rw [setEntries, List.foldl_cons] at h
    rcases mem_setEntries h with h | h
    · exact .inl (List.mem_cons_of_mem _ h)
    · rcases mem_setEntry h with h | h
      · exact .inl (h ▸ List.mem_cons_self)
      · exact .inr h

end

/-! ## Every container leads back -/

section
variable {document node v x y : Node} {path reference : String}

theorem form_eq_leaf_iff (node : Node) (path : String) : form node path = .leaf ↔ isScalar node = true := by
  cases node with
  | list p items => simp [form, isScalar]
  | map p entries => simp [form_map_ne_leaf p entries path, isScalar]
  | _ => exact ⟨fun _ => rfl, fun _ => rfl⟩

theorem Expands.of_scalar (h : Expands document x path y) (hx : isScalar x = true) : y = x := by
  have hf := (form_eq_leaf_iff x path).2 hx
  cases h with
  | leaf => rfl
  | whole hf' => cases hf.symm.trans hf'
  | cut hf' => cases hf.symm.trans hf'
  | passed hf' => cases hf.symm.trans hf'
  | joined hf' => cases hf.symm.trans hf'

theorem shows_whole {parts : List (String × Node)} {build : List Node → Node} {ys : List Node}
    (hf : form node path = .whole parts build)
    (hparts : List.Forall₂ (fun part y => Expands document part.2 part.1 y) parts ys) : Shows node (build ys) := by
  have hscalars : List.Forall₂ (fun x y => isScalar x = true → y = x) (parts.map (·.2)) ys :=
    List.forall₂_map_left_iff.2 (hparts.imp fun _ _ h => h.of_scalar)
  rcases whole_cases hf with ⟨p, rfl, rfl⟩ | ⟨p, entries, rfl, -, hvalues, rfl⟩
  · refine .list hscalars.length_eq.symm fun i x hx hscalar => ?_
    obtain ⟨y, hy, heq⟩ := getElem?_of_forall₂ hscalars hx
    rw [hy, heq hscalar]
  · rw [hvalues] at hscalars
    have hlen : (entries.map (·.1)).length = ys.length := by
      rw [List.length_map, ← hscalars.length_eq, List.length_map]
    refine .map (.inl (List.map_fst_zip (Nat.le_of_eq hlen))) fun key x hx hscalar => ?_
    rcases lookup_zip key hscalars with ⟨hnone, -⟩ | ⟨x', y, hx', hy, heq⟩
    · rw [hx] at hnone
      cases hnone
    · cases hx.symm.trans hx'
      rw [hy, heq hscalar]

/-- **The mark beside what shows a node shows it too.** -/
theorem shows_merged {shown : Node} {p : Option String} {found : List (String × Node)} (r : String)
    (hn : (found.map (·.1)).Nodup) (h : Shows shown (.map p found)) : Shows shown (merged r found [] []) := by
  cases h with
  | map hkeys hscalars =>
    rename_i q entries
    have hlookup := lookup_marked r hn
    refine .map (.inr ?_) fun key x hx hscalar => ?_
    · show (setEntries [(referenceKey, .str r)] found).map (·.1) = _ ∧ (_ → ∃ text, _)
      rw [keys_marked r hn]
      rcases hkeys with hsame | ⟨hfront, hmark⟩
      · refine ⟨by rw [hsame], fun hnone => ⟨r, ?_⟩⟩
        have hfound : found.lookup referenceKey = none :=
          lookup_eq_none_iff_not_mem.2 (hsame ▸ lookup_eq_none_iff_not_mem.1 hnone)
        rw [List.zip_nil_left]
        exact (hlookup referenceKey).trans (by rw [hfound, if_pos rfl, Option.none_or])
      · -- a mark that was in front stays there, and the new one takes its place
        refine ⟨?_, fun hnone => ?_⟩
        · rw [hfront, List.filter_cons_of_neg (by simp), List.filter_filter]
          simp only [Bool.and_self]
        · obtain ⟨text, htext⟩ := hmark hnone
          exact ⟨text, (hlookup referenceKey).trans (by rw [htext, Option.some_or])⟩
    · exact (hlookup key).trans (by rw [hscalars key x hx hscalar, Option.some_or])

theorem Expands.nodup (hd : document.Proper) (hr : Pointer.resolve document path = .ok (some node)) {p : Option String}
    {found : List (String × Node)} (h : Expands document node path (.map p found)) : (found.map (·.1)).Nodup := by
  cases node with
  | map q entries => exact h.keys hd hr
  | list q items =>
    generalize hv : Node.map p found = v at h
    cases h with
    | leaf hf => cases hf
    | whole hf =>
      cases hf
      cases hv
    | cut hf => cases hf
    | passed hf => cases hf
    | joined hf => cases hf
  | _ => cases h.of_scalar rfl

/-- **What holds of everything that a node can come to**, by what it can come to.  What stands at a place is what its pointer
designates. -/
theorem Expands.place_induction (hd : document.Proper) {P : Node → String → Node → Prop}
    (leaf : ∀ node path, form node path = .leaf → P node path node)
    (whole : ∀ node path parts build ys, Pointer.resolve document path = .ok (some node) → form node path = .whole parts build →
      List.Forall₂ (fun part y => Expands document part.2 part.1 y) parts ys →
      List.Forall₂ (fun part y => P part.2 part.1 y) parts ys → P node path (build ys))
    (cut : ∀ node path reference keys siblings, form node path = .reference reference keys siblings →
      P node path (stub reference))
    (passed : ∀ node path reference keys siblings next v, Pointer.resolve document path = .ok (some node) →
      form node path = .reference reference keys siblings → target document reference = .ok next →
      P next reference v → (∀ p found, v ≠ .map p found) → P node path v)
    (joined : ∀ node path reference keys siblings next p found ys, Pointer.resolve document path = .ok (some node) →
      form node path = .reference reference keys siblings → target document reference = .ok next →
      Expands document next reference (.map p found) → P next reference (.map p found) →
      List.Forall₂ (fun part y => P part.2 part.1 y) siblings ys → P node path (merged reference found keys ys))
    (hr : Pointer.resolve document path = .ok (some node)) (h : Expands document node path v) : P node path v := by
  have hparts : ∀ {node path}, Pointer.resolve document path = .ok (some node) → ∀ part ∈ (form node path).parts,
      Pointer.resolve document part.1 = .ok (some part.2) := fun hr part hm => resolve_part hd hr hm
  -- the second motive is for the parts of a node, one after the other
  refine @Expands.rec document
    (fun node path v _ => Pointer.resolve document path = .ok (some node) → P node path v)
    (fun parts ys _ => (∀ part ∈ parts, Pointer.resolve document part.1 = .ok (some part.2)) →
      List.Forall₂ (fun part y => P part.2 part.1 y) parts ys)
    ?leaf ?whole ?cut ?passed ?joined ?nil ?cons node path v h hr
  case leaf => exact fun {node path} hf _ => leaf node path hf
  case whole =>
    intro node path parts build ys hf hall ih hr
    exact whole node path parts build ys hr hf hall (ih (by simpa [hf, Form.parts] using hparts hr))
  case cut => exact fun {node path reference keys siblings} hf _ => cut node path reference keys siblings hf
  case passed =>
    intro node path reference keys siblings next v hf ht _ hv ih hr
    exact passed node path reference keys siblings next v hr hf ht (ih (target_eq_ok.1 ht).1) hv
  case joined =>
    intro node path reference keys siblings next p found ys hf ht hnext _ ih ihs hr
    exact joined node path reference keys siblings next p found ys hr hf ht hnext (ih (target_eq_ok.1 ht).1)
      (ihs (by simpa [hf, Form.parts] using hparts hr))
  case nil => exact fun _ => .nil
  case cons =>
    intro part y parts ys _ _ ih ihs hall
    exact .cons (ih (hall part List.mem_cons_self)) (ihs fun part hm => hall part (List.mem_cons_of_mem _ hm))

end

/-! ### Walks -/

section
variable {document node v : Node} {path : String}

/-- **What holds of everything that comes of a node at a place**: it shows what the node leads to, and everything in it leads back. -/
structure ShownAt (document node v : Node) : Prop where
  shows : isScalar v = false → isMark v = false →
    ∃ shown, settle document node = some shown ∧ refersTo shown = none ∧ Shows shown v
  inside : ∀ n, ReflTransGen Below n v → isScalar n = false → isMark n = false → LeadsBack document n

theorem below_stub {n : Node} {reference : String} (hn : ReflTransGen Below n (stub reference)) :
    n = stub reference ∨ n = .str reference := by
  rcases ReflTransGen.cases_tail hn with heq | ⟨m, hnm, hm⟩
  · exact .inl heq.symm
  · cases hm with
    | value hm =>
      obtain ⟨-, rfl⟩ := Prod.mk.inj (List.mem_singleton.1 hm)
      rcases ReflTransGen.cases_tail hnm with heq | ⟨k, -, hk⟩
      · exact .inr heq.symm
      · cases hk

theorem below_build {n : Node} {parts : List (String × Node)} {build : List Node → Node} {ys : List Node}
    (hf : form node path = .whole parts build) (hn : Below n (build ys)) : n ∈ ys := by
  rcases whole_cases hf with ⟨p, -, rfl⟩ | ⟨p, entries, -, -, -, rfl⟩
  · cases hn with
    | item hn => exact hn
  · cases hn with
    | value hn => exact (List.of_mem_zip hn).2

theorem below_merged {n : Node} {reference : String} {p : Option String} {found : List (String × Node)}
    (hn : Below n (merged reference found [] [])) : n = .str reference ∨ Below n (.map p found) := by
  cases hn with
  | value hn =>
    rcases mem_setEntries hn with h | h
    · cases h
    · rcases mem_setEntries h with h | h
      · exact .inr (.value h)
      · obtain ⟨-, rfl⟩ := Prod.mk.inj (List.mem_singleton.1 h)
        exact .inl rfl

theorem isMark_merged {reference : String} {p : Option String} {found : List (String × Node)}
    (hm : isMark (.map p found) = true) : isMark (merged reference found [] []) = true := by
  obtain ⟨q, text, heq⟩ := (isMark_iff _).1 hm
  cases heq
  rfl

theorem path?_build {parts : List (String × Node)} {build : List Node → Node} (hf : form node path = .whole parts build)
    (ys : List Node) : (build ys).path? = some path := by
  rcases whole_cases hf with ⟨p, -, rfl⟩ | ⟨p, entries, -, -, -, rfl⟩ <;> rfl

theorem refersTo_of_whole {parts : List (String × Node)} {build : List Node → Node}
    (hf : form node path = .whole parts build) : refersTo node = none := by
  rcases whole_cases hf with ⟨p, rfl, -⟩ | ⟨p, entries, rfl, hr, -, -⟩
  · rfl
  · exact hr

theorem ShownAt.of_scalar (h : isScalar node = true) : ShownAt document node node := by
  refine ⟨fun hc => absurd (hc.symm.trans h) Bool.false_ne_true, fun n hn hc _ => ?_⟩
  rcases ReflTransGen.cases_tail hn with rfl | ⟨m, -, hm⟩
  · exact absurd (hc.symm.trans h) Bool.false_ne_true
  · cases hm <;> cases h

theorem ShownAt.of_stub (reference : String) : ShownAt document node (stub reference) := by
  have hmark : isMark (stub reference) = true := rfl
  refine ⟨fun _ hm => absurd (hm.symm.trans hmark) Bool.false_ne_true, fun n hn hc hm => ?_⟩
  rcases below_stub hn with rfl | rfl
  · exact absurd (hm.symm.trans hmark) Bool.false_ne_true
  · cases hc

theorem ShownAt.of_parts {parts : List (String × Node)} {build : List Node → Node} {ys : List Node}
    (hr : Pointer.resolve document path = .ok (some node)) (hf : form node path = .whole parts build)
    (hparts : List.Forall₂ (fun part y => Expands document part.2 part.1 y) parts ys)
    (h : List.Forall₂ (fun part y => ShownAt document part.2 y) parts ys) : ShownAt document node (build ys) := by
  have hown := refersTo_of_whole hf
  have hshows := shows_whole hf hparts
  refine ⟨fun _ _ => ⟨node, settle_of_none hown, hown, hshows⟩, fun n hn hc hm => ?_⟩
  rcases ReflTransGen.cases_tail hn with rfl | ⟨y, hny, hy⟩
  · exact ⟨path, node, node, path?_build hf ys, hr, settle_of_none hown, hown, hshows⟩
  · obtain ⟨part, -, hpart⟩ := (exists_of_forall₂ h).2 y (below_build hf hy)
    exact hpart.inside n hny hc hm

theorem ShownAt.of_target {next : Node} {reference : String} (h : ShownAt document next v)
    (hr : refersTo node = some reference) (hmem : reference ∈ references document)
    (ht : target document reference = .ok next) : ShownAt document node v := by
  refine ⟨fun hc hm => ?_, h.inside⟩
  obtain ⟨shown, hs, hown, hshows⟩ := h.shows hc hm
  exact ⟨shown, settle_of_target hr hmem ht hs, hown, hshows⟩

/-- The mark of a reference beside what its target came to changes nothing. -/
theorem ShownAt.marked {reference : String} {p : Option String} {found : List (String × Node)}
    (h : ShownAt document node (.map p found)) (hn : (found.map (·.1)).Nodup)
    (hr : Pointer.resolve document reference = .ok (some node)) : ShownAt document node (merged reference found [] []) := by
  have hleads : isMark (merged reference found [] []) = false → ∃ shown, settle document node = some shown ∧
      refersTo shown = none ∧ Shows shown (merged reference found [] []) := by
    intro hm
    -- a mark of its own would be all that there is
    have hfound : isMark (.map p found) = false := by
      by_contra hmark
      exact absurd (hm.symm.trans (isMark_merged (Bool.not_eq_false _ ▸ hmark))) Bool.false_ne_true
    obtain ⟨shown, hs, hown, hshows⟩ := h.shows rfl hfound
    exact ⟨shown, hs, hown, shows_merged reference hn hshows⟩
  refine ⟨fun _ hm => hleads hm, fun n hm hc hmark => ?_⟩
  rcases ReflTransGen.cases_tail hm with rfl | ⟨y, hny, hy⟩
  · obtain ⟨shown, hs, hown, hshows⟩ := hleads hmark
    exact ⟨reference, node, shown, rfl, hr, hs, hown, hshows⟩
  · rcases below_merged (p := p) hy with rfl | hy
    · rcases ReflTransGen.cases_tail hny with rfl | ⟨z, -, hz⟩
      · cases hc
      · cases hz
    · exact h.inside n (hny.tail hy) hc hmark

/-- **Everything that a node can come to shows what the node leads to**, if no reference has anything beside it. -/
theorem Expands.shownAt (hd : document.Proper) (hlone : document.everywhere lone = true)
    (hr : Pointer.resolve document path = .ok (some node)) (h : Expands document node path v) : ShownAt document node v := by
  have hmem : ∀ {node path reference keys siblings}, Pointer.resolve document path = .ok (some node) →
      form node path = .reference reference keys siblings → reference ∈ references document :=
    fun hr hf => references_resolve hr (mem_references_of_form hf)
  refine h.place_induction hd (P := fun node _ v => ShownAt document node v) ?leaf ?whole ?cut ?passed ?joined hr
  case leaf => exact fun node path hf => .of_scalar ((form_eq_leaf_iff node path).1 hf)
  case whole => exact fun node path parts build ys hr hf hparts ih => .of_parts hr hf hparts ih
  case cut => exact fun node path reference keys siblings _ => .of_stub reference
  case passed =>
    intro node path reference keys siblings next v hr hf ht ih _
    exact ih.of_target (refersTo_of_form hf) (hmem hr hf) ht
  case joined =>
    intro node path reference keys siblings next p found ys hr hf ht hnext ih _
    obtain ⟨rfl, rfl, -⟩ := form_of_lone (Node.everywhere_self node (everywhere_resolve hlone hr)) hf
    have hnext' := (target_eq_ok.1 ht).1
    exact (ih.marked (hnext.nodup hd hnext') hnext').of_target (refersTo_of_form hf) (hmem hr hf) ht

/-- **Canonical paths lead back.**  If no reference has anything beside it, then every container in an expanded document that is no
mark alone has a path that leads back, over references if there are any, to a node that is none: one of the same kind, with the same
keys or as many items, and with every scalar at its place. -/
theorem canonical_leadsBack (document out n : Node) (depth : Nat) (hd : document.Proper)
    (hlone : document.everywhere lone = true) (h : Outcome.answer (within document depth document "#" .empty) = .ok out)
    (hn : ReflTransGen Below n out) (hc : isScalar n = false) (hm : isMark n = false) : LeadsBack document n := by
  cases hw : within document depth document "#" .empty with
  | error e t =>
    rw [hw] at h
    cases h
  | ok v t =>
    rw [hw] at h
    cases h
    have hroot := Pointer.resolve_root document
    obtain ⟨hout, -⟩ := within_expands hd depth document "#" .empty out t hroot (remembers_empty document) hw
    exact (hout.shownAt hd hlone hroot).inside n hn hc hm

end

def cyclicAlias : Node :=
  .map (some "#/cells")
    [("$ref", .str "#/cells"), ("head", .int 1), ("tail", .list (some "#/cells/tail") [stub "#/cells"])]

theorem cyclicAlias_leadsBack :
    (cyclic.Proper ∧ cyclic.everywhere lone = true) ∧
    Outcome.answer (within cyclic 2 cyclic "#" .empty) = .ok cyclicOut ∧
    (ReflTransGen Below cyclicAlias cyclicOut ∧ isScalar cyclicAlias = false ∧ isMark cyclicAlias = false) ∧
    LeadsBack cyclic cyclicAlias := by
  have hout : Outcome.answer (within cyclic 2 cyclic "#" .empty) = .ok cyclicOut := by decide +kernel
  have hn : ReflTransGen Below cyclicAlias cyclicOut := .single (.value List.mem_cons_self)
  exact ⟨⟨by decide, by decide⟩, hout, ⟨hn, rfl, rfl⟩,
    canonical_leadsBack cyclic cyclicOut cyclicAlias 2 (by decide) (by decide) hout hn rfl rfl⟩

/-- A mapping that is no reference although it has a key `$ref`, and a reference to it. -/
def moved : Node :=
  .map none [("r", .map none [("$ref", .str "#/t")]), ("t", .map none [("a", .int 1), ("$ref", .int 5)])]

def movedOut : Node :=
  .map (some "#") [("r", .map (some "#/t") [("$ref", .int 5), ("a", .int 1)]),
    ("t", .map (some "#/t") [("a", .int 1), ("$ref", .int 5)])]

def unmarked (entries : List (String × Node)) : List (String × Node) :=
  entries.filter fun e => !(e.1 == referenceKey && e.2.text?.isSome)

/-- **A key `$ref` that is no mark moves to the front**: what a path leads back to may have its keys in another order. -/
theorem moved_out_of_order :
    (moved.Proper ∧ moved.everywhere lone = true) ∧
    Outcome.answer (within moved 1 moved "#" .empty) = .ok movedOut ∧
    ∃ n, ReflTransGen Below n movedOut ∧ isScalar n = false ∧ isMark n = false ∧
      ∀ path raw p entries q out, n.path? = some path → Pointer.resolve moved path = .ok (some raw) →
        settle moved raw = some (.map p entries) → n = .map q out →
        (unmarked out).map (·.1) ≠ (unmarked entries).map (·.1) := by
  refine ⟨⟨by decide, by decide⟩, by decide +kernel, .map (some "#/t") [("$ref", .int 5), ("a", .int 1)],
    .single (.value List.mem_cons_self), rfl, rfl, ?_⟩
  intro path raw p entries q out hpath hraw hshown hn
  cases hpath
  cases hn
  have hresolve : Pointer.resolve moved "#/t" = .ok (some (.map none [("a", .int 1), ("$ref", .int 5)])) := by decide +kernel
  cases hresolve.symm.trans hraw
  cases hshown
  decide

end Expansion
end TypedClient
