import TypedClient.Proofs.Expansion.Alike
import TypedClient.Proofs.Expansion.Inlining
import TypedClient.Proofs.Expansion.Unfolding
/-!
# Faithful — cutting cycles loses nothing

Where an expansion is cut, the mark of the reference is left, and the tree goes on in the source.  So an expanded document stands for
the tree of its source, although what is cut depends on the way and although what is remembered is used in many places.  Walk by walk
this is kept by what is remembered (`Faithful`): at each place, something that stands for the tree of what the place designates.
-/
namespace TypedClient
namespace Expansion

/-! ## Trees of expanded nodes -/

section
variable {document : Node}

theorem all_mark_iff (entries : List (String × Node)) :
    (entries.all fun e => e.1 == referenceKey) = true ↔ ∀ key, key ≠ referenceKey → entries.lookup key = none := by
  rw [List.all_eq_true]
  constructor
  · intro h key hkey
    rw [List.lookup_eq_none_iff]
    intro e he
    have hmark : e.1 = referenceKey := beq_iff_eq.1 (h e he)
    exact bne_iff_ne.2 (hmark ▸ hkey)
  · intro h e he
    by_contra hne
    have hnone := h e.1 fun heq => hne (beq_iff_eq.2 heq)
    rw [List.lookup_eq_none_iff] at hnone
    exact bne_iff_ne.1 (hnone e he) rfl

theorem outputTree_of_none {v : Node} (h : refersTo v = none) (depth : Nat) :
    outputTree document (depth + 1) v = grow (outputTree document depth) v := by
  cases v with
  | map p entries =>
    have h : reference? entries = none := h
    simp only [outputTree, refersTo, h]
  | _ => rfl

theorem outputTree_of_mark {p : Option String} {entries : List (String × Node)} {r : String} {next : Node}
    (hr : reference? entries = some r) (hmark : ∀ key, key ≠ referenceKey → entries.lookup key = none)
    (ht : target document r = .ok next) (depth : Nat) :
    outputTree document (depth + 1) (.map p entries) = sourceTree document (depth + 1) next := by
  simp only [outputTree, refersTo, hr, (all_mark_iff entries).2 hmark, if_true, ht]

theorem outputTree_of_beside {p : Option String} {entries : List (String × Node)} {r : String}
    (hr : reference? entries = some r) (hbeside : ¬ ∀ key, key ≠ referenceKey → entries.lookup key = none) (depth : Nat) :
    outputTree document (depth + 1) (.map p entries) =
      .map fun key => if key = referenceKey then none else (entries.lookup key).map (outputTree document depth) := by
  have hall : ¬ (entries.all fun e => e.1 == referenceKey) = true := fun h => hbeside ((all_mark_iff entries).1 h)
  simp only [outputTree, refersTo, hr, if_neg hall]

/-- **The tree of an expanded mapping depends on what is found under its keys only.** -/
theorem outputTree_congr {p q : Option String} {entries entries' : List (String × Node)}
    (h : ∀ key, entries.lookup key = entries'.lookup key) (depth : Nat) :
    outputTree document depth (.map p entries) = outputTree document depth (.map q entries') := by
  cases depth with
  | zero => rfl
  | succ depth =>
    have href : reference? entries = reference? entries' := by
      rw [reference?, reference?, h referenceKey]
    cases hr : reference? entries with
    | none =>
      rw [outputTree_of_none (v := .map p entries) hr, outputTree_of_none (v := .map q entries') (href.symm.trans hr)]
      simp only [grow, h]
    | some r =>
      have hall : (entries.all fun e => e.1 == referenceKey) = entries'.all fun e => e.1 == referenceKey := by
        rw [Bool.eq_iff_iff, all_mark_iff, all_mark_iff]
        simp only [h]
      simp only [outputTree, refersTo, hr, href.symm.trans hr, hall, h]

/-- **Whether an expanded node stands for the tree of a node of the document**, with no key twice. -/
structure Unfolds (document node v : Node) : Prop where
  tree_eq : ∀ depth, outputTree document depth v = sourceTree document depth node
  keys : ∀ p entries, v = .map p entries → (entries.map (·.1)).Nodup

theorem unfolds_leaf {node : Node} {path : String} (hf : form node path = .leaf) : Unfolds document node node := by
  have hgrow : refersTo node = none ∧ ∀ tree, grow tree node = .leaf node := by
    cases node with
    | list p items => cases hf
    | map p entries => exact absurd hf (form_map_ne_leaf p entries path)
    | _ => exact ⟨rfl, fun _ => rfl⟩
  obtain ⟨hnone, hleaf⟩ := hgrow
  refine ⟨fun depth => ?_, fun p entries h => ?_⟩
  · cases depth with
    | zero => rfl
    | succ depth => rw [outputTree_of_none hnone, sourceTree_of_none hnone, hleaf, hleaf]
  · subst h
    exact absurd hf (form_map_ne_leaf p entries path)

theorem unfolds_list {p : Option String} {items ys : List Node} (path : String) (h : List.Forall₂ (Unfolds document) items ys) :
    Unfolds document (.list p items) (.list (some path) ys) := by
  refine ⟨fun depth => ?_, fun _ _ h => by cases h⟩
  cases depth with
  | zero => rfl
  | succ depth =>
    rw [outputTree_of_none rfl, sourceTree_of_none rfl, grow, grow]
    congr 1
    induction h with
    | nil => rfl
    | cons hxy _ ih => rw [List.map_cons, List.map_cons, hxy.tree_eq depth, ih]

theorem lookup_zip {R : Node → Node → Prop} (key : String) : ∀ {entries : List (String × Node)} {ys : List Node},
    List.Forall₂ R (entries.map (·.2)) ys →
    (entries.lookup key = none ∧ ((entries.map (·.1)).zip ys).lookup key = none) ∨
      ∃ x y, entries.lookup key = some x ∧ ((entries.map (·.1)).zip ys).lookup key = some y ∧ R x y
  | [], [], _ => .inl ⟨rfl, rfl⟩
  | (k, x) :: rest, y :: ys, h => by
    rw [List.map_cons, List.forall₂_cons] at h
    rw [List.map_cons, List.zip_cons_cons, List.lookup_cons, List.lookup_cons]
    by_cases hk : key = k
    · rw [beq_iff_eq.2 hk]
      exact .inr ⟨x, y, rfl, rfl, h.1⟩
    · rw [beq_false_of_ne hk]
      exact lookup_zip key h.2

/-- Whatever is text when it is expanded leads to text. -/
theorem settle_of_unfolds_str {x : Node} {text : String} (h : Unfolds document x (.str text)) :
    settle document x = some (.str text) := by
  have htree := h.tree_eq 1
  rw [outputTree_of_none rfl, sourceTree] at htree
  cases hs : settle document x with
  | none => simp [hs, grow] at htree
  | some settled =>
    rw [hs] at htree
    cases settled <;> simp_all [grow]

/-- **What expanded values stand for, their mapping stands for**, if under the key of a mark nothing leads to text. -/
theorem unfolds_map {p : Option String} {entries : List (String × Node)} {ys : List Node} (path : String)
    (hn : (entries.map (·.1)).Nodup) (hr : reference? entries = none)
    (hmark : ∀ x text, entries.lookup referenceKey = some x → settle document x ≠ some (.str text))
    (h : List.Forall₂ (Unfolds document) (entries.map (·.2)) ys) :
    Unfolds document (.map p entries) (.map (some path) ((entries.map (·.1)).zip ys)) := by
  have hlen : (entries.map (·.1)).length = ys.length := by
    rw [List.length_map, ← h.length_eq, List.length_map]
  have hkeys : ((entries.map (·.1)).zip ys).map (·.1) = entries.map (·.1) :=
    List.map_fst_zip (Nat.le_of_eq hlen)
  have hnone : reference? ((entries.map (·.1)).zip ys) = none := by
    unfold reference?
    rcases lookup_zip referenceKey h with ⟨-, hy⟩ | ⟨x, y, hx, hy, hxy⟩
    · rw [hy]
      rfl
    · rw [hy]
      cases y with
      | str text => exact absurd (settle_of_unfolds_str hxy) (hmark x text hx)
      | _ => rfl
  refine ⟨fun depth => ?_, fun q es he => ?_⟩
  · cases depth with
    | zero => rfl
    | succ depth =>
      rw [outputTree_of_none (v := .map (some path) _) hnone, @sourceTree_of_none document (.map p entries) hr, grow, grow]
      congr 1
      funext key
      rcases lookup_zip key h with ⟨hx, hy⟩ | ⟨x, y, hx, hy, hxy⟩
      · rw [hx, hy]
        rfl
      · rw [hx, hy]
        exact congrArg some (hxy.tree_eq depth)
  · cases he
    rw [hkeys]
    exact hn

theorem unfolds_stub {node next : Node} {r : String} (ht : target document r = .ok next)
    (htree : ∀ depth, sourceTree document depth node = sourceTree document depth next) : Unfolds document node (stub r) := by
  refine ⟨fun depth => ?_, fun p entries h => ?_⟩
  · cases depth with
    | zero => rfl
    | succ depth =>
      rw [stub, outputTree_of_mark rfl (fun key hkey => ?_) ht, htree]
      rw [List.lookup_cons, beq_false_of_ne hkey]
      rfl
  · cases h
    simp

theorem lookup_marked (r : String) {found : List (String × Node)} (hn : (found.map (·.1)).Nodup) (key : String) :
    (setEntries [(referenceKey, .str r)] found).lookup key =
      (found.lookup key).or (if key = referenceKey then some (.str r) else none) := by
  rw [lookup_setEntries key found [(referenceKey, .str r)] hn, List.lookup_cons]
  by_cases hk : key = referenceKey
  · rw [if_pos hk, beq_iff_eq.2 hk]
  · rw [if_neg hk, beq_false_of_ne hk]
    rfl

/-- **The mark of a reference beside what is found changes nothing.** -/
theorem unfolds_merged {node next : Node} {r : String} {p : Option String} {found : List (String × Node)}
    (ht : target document r = .ok next) (htree : ∀ depth, sourceTree document depth node = sourceTree document depth next)
    (h : Unfolds document next (.map p found)) : Unfolds document node (merged r found [] []) := by
  have hn := h.keys p found rfl
  have hkeys : ((setEntries [(referenceKey, .str r)] found).map (·.1)).Nodup :=
    nodup_setEntries found [(referenceKey, .str r)] (by simp)
  have hlookup := lookup_marked r hn
  have hother : ∀ key, key ≠ referenceKey → (setEntries [(referenceKey, .str r)] found).lookup key = found.lookup key := by
    intro key hk
    rw [hlookup key, if_neg hk, Option.or_none]
  show Unfolds document node (.map (some r) (setEntries [(referenceKey, .str r)] found))
  refine ⟨fun depth => ?_, fun q es he => ?_⟩
  · rw [htree, ← h.tree_eq depth]
    cases hx : found.lookup referenceKey with
    | some x =>
      -- the mark is what was found under its key
      refine outputTree_congr (fun key => ?_) depth
      rw [hlookup key]
      by_cases hk : key = referenceKey
      · rw [hk, hx]
        rfl
      · rw [if_neg hk, Option.or_none]
    | none =>
      have hfound : reference? found = none := by
        rw [reference?, hx]
        rfl
      have hmark : reference? (setEntries [(referenceKey, .str r)] found) = some r := by
        rw [reference?, hlookup referenceKey, hx, if_pos rfl]
        rfl
      cases depth with
      | zero => rfl
      | succ depth =>
        by_cases hall : ∀ key, key ≠ referenceKey → (setEntries [(referenceKey, .str r)] found).lookup key = none
        · rw [outputTree_of_mark hmark hall ht, h.tree_eq]
        · rw [outputTree_of_beside hmark hall, outputTree_of_none (v := .map p found) hfound, grow]
          congr 1
          funext key
          by_cases hk : key = referenceKey
          · rw [if_pos hk, hk, hx]
            rfl
          · rw [if_neg hk, hother key hk]
  · cases he
    exact hkeys

end

/-! ## Nodes of the source -/

/-- Whether a node that is a reference has nothing beside it. -/
def lone : Node → Bool
  | .map _ entries => (reference? entries).isNone || entries.length == 1
  | _ => true

/-- Whether a node has text under `$ref` or nothing that leads to text: else its expansion would look like a reference. -/
def unambiguous (document : Node) : Node → Bool
  | .map _ entries =>
    (reference? entries).isSome ||
      match (entries.lookup referenceKey).bind (settle document) with
      | some (.str _) => false
      | _ => true
  | _ => true

/-- Whether every reference in a node has a target. -/
def HasTargets (document node : Node) : Prop := ∀ r ∈ references node, ∃ next, target document r = .ok next

section
variable {document node : Node} {path reference : String} {keys : List String} {siblings parts : List (String × Node)}
  {build : List Node → Node}

theorem refersTo_of_form (hf : form node path = .reference reference keys siblings) : refersTo node = some reference := by
  cases node with
  | map p entries => exact (form_map_reference hf).1
  | _ => cases hf

/-- A reference with nothing beside it holds no other reference. -/
theorem form_of_lone (hl : lone node = true) (hf : form node path = .reference reference keys siblings) :
    keys = [] ∧ siblings = [] ∧ references node = [reference] := by
  cases node with
  | map p entries =>
    obtain ⟨hr, rfl, rfl⟩ := form_map_reference hf
    have hlen : entries.length = 1 := by simpa [lone, hr] using hl
    obtain ⟨⟨k, x⟩, rfl⟩ := List.length_eq_one_iff.1 hlen
    have hx : k = referenceKey ∧ x = .str reference := by
      rw [reference?, List.lookup_cons] at hr
      by_cases hk : referenceKey = k
      · rw [beq_iff_eq.2 hk] at hr
        cases x <;> simp_all [Node.text?]
      · rw [beq_false_of_ne hk] at hr
        cases hr
    obtain ⟨rfl, rfl⟩ := hx
    refine ⟨by simp, by simp [partsOfEntries], ?_⟩
    simp [references, hr, referencesOfEntries]
  | _ => cases hf

theorem references_of_leaf (hf : form node path = .leaf) : references node = [] := by
  cases node with
  | list p items => cases hf
  | map p entries => exact absurd hf (form_map_ne_leaf p entries path)
  | _ => rfl

/-- **A reference with nothing beside it stands for what its target stands for.** -/
theorem reference_of_lone {next : Node} (hloop : LoopFree document) (hlone : document.everywhere lone = true)
    (hr : Pointer.resolve document path = .ok (some node)) (hf : form node path = .reference reference keys siblings)
    (hg : target document reference = .ok next) :
    HasTargets document node ∧ (∀ depth, sourceTree document depth node = sourceTree document depth next) ∧
      keys = [] ∧ siblings = [] := by
  obtain ⟨hkeys, hsiblings, hrefs⟩ := form_of_lone (Node.everywhere_self node (everywhere_resolve hlone hr)) hf
  have hmem : reference ∈ references document := references_resolve hr (mem_references_of_form hf)
  refine ⟨fun r hm => ?_, sourceTree_target hloop (refersTo_of_form hf) hmem hg, hkeys, hsiblings⟩
  rw [hrefs, List.mem_singleton] at hm
  exact ⟨next, hm ▸ hg⟩

theorem map_partsOfItems (path : String) : ∀ (items : List Node) (index : Nat),
    (partsOfItems path index items).map (·.2) = items
  | [], _ => rfl
  | x :: xs, index => by rw [partsOfItems, List.map_cons, map_partsOfItems path xs]

theorem map_partsOfEntries (path : String) (entries : List (String × Node)) :
    (partsOfEntries path entries).map (·.2) = entries.map (·.2) := by
  simp [partsOfEntries]

theorem whole_cases (hf : form node path = .whole parts build) :
    (∃ p, node = .list p (parts.map (·.2)) ∧ build = .list (some path)) ∨
    ∃ p entries, node = .map p entries ∧ reference? entries = none ∧ parts.map (·.2) = entries.map (·.2) ∧
      build = fun ys => .map (some path) ((entries.map (·.1)).zip ys) := by
  cases node with
  | list p items =>
    cases hf
    exact .inl ⟨p, by rw [map_partsOfItems], rfl⟩
  | map p entries =>
    obtain ⟨hr, rfl, rfl⟩ := form_map_whole hf
    exact .inr ⟨p, entries, rfl, hr, map_partsOfEntries path entries, rfl⟩
  | _ => cases hf

theorem hasTargets_of_whole (hf : form node path = .whole parts build) (h : ∀ e ∈ parts, HasTargets document e.2) :
    HasTargets document node := by
  intro r hr
  have hpart : ∃ x ∈ parts.map (·.2), r ∈ references x := by
    rcases whole_cases hf with ⟨p, rfl, -⟩ | ⟨p, entries, rfl, href, hparts, -⟩
    · rw [references, mem_referencesOfItems] at hr
      exact hr
    · rw [references, href, Option.toList_none, List.nil_append, mem_referencesOfEntries] at hr
      obtain ⟨e, he, hre⟩ := hr
      rw [hparts]
      exact ⟨e.2, List.mem_map.2 ⟨e, he, rfl⟩, hre⟩
  obtain ⟨x, hx, hrx⟩ := hpart
  obtain ⟨e, he, rfl⟩ := List.mem_map.1 hx
  exact h e he r hrx

theorem unfolds_whole {ys : List Node} (hf : form node path = .whole parts build) (hn : node.keepsKeys = true)
    (hu : unambiguous document node = true) (h : List.Forall₂ (Unfolds document) (parts.map (·.2)) ys) :
    Unfolds document node (build ys) := by
  rcases whole_cases hf with ⟨p, rfl, rfl⟩ | ⟨p, entries, rfl, href, hparts, rfl⟩
  · exact unfolds_list path h
  · rw [hparts] at h
    refine unfolds_map path (by simpa [Node.keepsKeys] using hn) href (fun x text hx hs => ?_) h
    simp [unambiguous, href, hx, hs] at hu

end

/-! ## Walks -/

/-- **A state in which what is remembered stands for what its place designates**, and what is active has a target. -/
structure Faithful (document : Node) (s : Expansion) : Prop where
  finished : ∀ p v node, s.finished.lookup p = some v → Pointer.resolve document p = .ok (some node) →
    Unfolds document node v ∧ HasTargets document node
  active : ∀ q ∈ s.active, ∃ next, target document q = .ok next

namespace Faithful

variable {document node v : Node} {s t : Expansion} {path : String}

theorem empty (document : Node) : Faithful document .empty :=
  ⟨fun _ _ _ h _ => (by cases h), fun _ h => absurd h List.not_mem_nil⟩

theorem begin (h : Faithful document s) (ht : target document path = .ok node) : Faithful document (s.begin path) := by
  refine ⟨h.finished, fun q hq => ?_⟩
  rcases (mem_begin path q s).1 hq with rfl | hq
  · exact ⟨node, ht⟩
  · exact h.active q hq

theorem conclude {r : Outcome Node} (hr : Pointer.resolve document path = .ok (some node))
    (h : conclude path s r = .ok v t)
    (hbody : ∀ u, r = .ok v u → Unfolds document node v ∧ HasTargets document node ∧ Faithful document u) :
    Unfolds document node v ∧ HasTargets document node ∧ Faithful document t := by
  cases r with
  | error e u => cases h
  | ok w u =>
    by_cases hs : u.stubs = s.stubs
    · rw [conclude_kept path w hs] at h
      cases h
      obtain ⟨hv, ht, hu⟩ := hbody u rfl
      refine ⟨hv, ht, fun p w next hw hp => ?_, fun q hq => hu.active q ((mem_finish path q u).1 hq).2⟩
      rw [List.lookup_cons] at hw
      by_cases hpath : p = path
      · subst hpath
        rw [beq_self_eq_true] at hw
        rw [hr] at hp
        cases hw
        cases hp
        exact ⟨hv, ht⟩
      · rw [beq_false_of_ne hpath] at hw
        exact hu.finished p w next hw hp
    · rw [conclude_stubbed path w hs] at h
      cases h
      obtain ⟨hv, ht, hu⟩ := hbody u rfl
      exact ⟨hv, ht, hu.finished, fun q hq => hu.active q ((mem_finish path q u).1 hq).2⟩

end Faithful

section
variable {document : Node}

theorem map_eq_ok {α β : Type} {r : Outcome α} {g : α → β} {w : β} {t : Expansion} (h : r.map g = .ok w t) :
    ∃ v, r = .ok v t ∧ g v = w := by
  cases r with
  | ok v u =>
    cases h
    exact ⟨v, rfl, rfl⟩
  | error e u => cases h

theorem andThen_eq_ok {α β : Type} {r : Outcome α} {k : α → Expansion → Outcome β} {w : β} {t : Expansion}
    (h : r.andThen k = .ok w t) : ∃ v u, r = .ok v u ∧ k v u = .ok w t := by
  cases r with
  | ok v u => exact ⟨v, u, rfl, h⟩
  | error e u => cases h

theorem expandParts_unfolds {follow : String → Step Node} : ∀ (parts : List (String × Node)) (s t : Expansion) (ys : List Node),
    (∀ q x, (q, x) ∈ parts → ∀ s v t, Faithful document s → expandNode follow x q s = .ok v t →
      Unfolds document x v ∧ HasTargets document x ∧ Faithful document t) →
    Faithful document s → expandParts follow parts s = .ok ys t →
    List.Forall₂ (Unfolds document) (parts.map (·.2)) ys ∧ (∀ e ∈ parts, HasTargets document e.2) ∧ Faithful document t
  | [], s, t, ys, _, hs, h => by
    cases h
    exact ⟨.nil, fun _ h => absurd h List.not_mem_nil, hs⟩
  | (q, x) :: rest, s, t, ys, hx, hs, h => by
    rw [expandParts] at h
    obtain ⟨y, u, hy, hrest⟩ := andThen_eq_ok h
    obtain ⟨zs, hzs, rfl⟩ := map_eq_ok hrest
    obtain ⟨hxy, htx, hu⟩ := hx q x List.mem_cons_self s y u hs hy
    obtain ⟨hall, htall, ht⟩ :=
      expandParts_unfolds rest u t zs (fun q x hm => hx q x (List.mem_cons_of_mem _ hm)) hu hzs
    refine ⟨.cons hxy hall, fun e he => ?_, ht⟩
    rcases List.mem_cons.1 he with rfl | he
    · exact htx
    · exact htall e he

/-- **What is expanded stands for what is expanded.** -/
theorem within_unfolds (hd : document.Proper) (hlone : document.everywhere lone = true) (hloop : LoopFree document)
    (hmark : document.everywhere (unambiguous document) = true) (depth : Nat) : ∀ (node : Node) (path : String) (s : Expansion)
    (v : Node) (t : Expansion), Pointer.resolve document path = .ok (some node) → Faithful document s →
    within document depth node path s = .ok v t →
    Unfolds document node v ∧ HasTargets document node ∧ Faithful document t := by
  induction depth using Nat.strong_induction_on with
  | _ depth jump =>
  refine parts_induction fun node ih path s v t hr hs h => ?_
  have hparts : ∀ q x, (q, x) ∈ (form node path).parts → ∀ s v t, Faithful document s →
      expandNode (follow document depth) x q s = .ok v t →
      Unfolds document x v ∧ HasTargets document x ∧ Faithful document t :=
    fun q x hm s v t => ih path q x hm q s v t (resolve_part hd hr hm)
  have hbegin : form node path ≠ .leaf → Faithful document (s.begin path) := fun hf => hs.begin (target_of_placed hr hf)
  rw [within] at h
  cases expandNode_visit (follow document depth) node path s with
  | leaf hf he =>
    rw [he] at h
    cases h
    exact ⟨unfolds_leaf hf, fun r hm => absurd hm (references_of_leaf hf ▸ List.not_mem_nil), hs⟩
  | known w hf hk he =>
    rw [he] at h
    cases h
    obtain ⟨hv, ht⟩ := hs.finished path v node hk hr
    exact ⟨hv, ht, hs⟩
  | whole parts build hf hk he =>
    rw [hf] at hparts
    rw [he] at h
    refine Faithful.conclude hr h fun u hu => ?_
    obtain ⟨ys, hys, rfl⟩ := map_eq_ok hu
    obtain ⟨hall, htall, hu⟩ := expandParts_unfolds parts _ _ ys hparts (hbegin (by simp [hf])) hys
    have hn := Node.everywhere_self node (everywhere_resolve hd hr)
    have hm := Node.everywhere_self node (everywhere_resolve hmark hr)
    exact ⟨unfolds_whole hf hn hm hall, hasTargets_of_whole hf htall, hu⟩
  | remote reference keys siblings hf hk hl he =>
    rw [he] at h
    cases h
  | cut reference keys siblings hf hk hl ha he =>
    have hbegin := hbegin (by simp [hf])
    rw [he] at h
    refine Faithful.conclude hr h fun u hu => ?_
    cases hu
    -- what is being expanded was found, so the stub leads somewhere
    obtain ⟨next, hg⟩ := hbegin.active reference ha
    obtain ⟨htargets, htree, -, -⟩ := reference_of_lone hloop hlone hr hf hg
    exact ⟨unfolds_stub hg htree, htargets, hbegin.finished, hbegin.active⟩
  | followed reference keys siblings hf hk hl ha he =>
    have hbegin := hbegin (by simp [hf])
    rw [he] at h
    refine Faithful.conclude hr h fun u hu => ?_
    obtain ⟨w, u', hw, hbeside⟩ := andThen_eq_ok hu
    cases depth with
    | zero => cases hw
    | succ less =>
      cases hg : target document reference with
      | error e =>
        rw [follow_error hg] at hw
        cases hw
      | ok next =>
        -- alone, the reference has no siblings to expand
        obtain ⟨htargets, htree, rfl, rfl⟩ := reference_of_lone hloop hlone hr hf hg
        rw [follow_target hg] at hw
        obtain ⟨hnext, -, hu'⟩ :=
          jump less (Nat.lt_succ_self less) next reference _ w u' (target_eq_ok.1 hg).1 hbegin hw
        cases w with
        | map p found =>
          cases hbeside
          exact ⟨unfolds_merged hg htree hnext, htargets, hu'⟩
        | _ =>
          cases hbeside
          exact ⟨⟨fun depth => (hnext.tree_eq depth).trans (htree depth).symm, hnext.keys⟩, htargets, hu'⟩

/-- **Cutting cycles loses nothing.**  If no reference has anything beside it, no references lead round in circles and under the key
of a mark no reference leads to text, then what the document is expanded to stands for the tree of the document, to every depth.  The
tree has no gaps: every reference leads somewhere. -/
theorem expand_unfolds (document : Node) (hd : document.Proper) (hlone : document.everywhere lone = true)
    (hloop : LoopFree document) (hmark : document.everywhere (unambiguous document) = true) (depth : Nat) (out : Node)
    (h : Outcome.answer (within document depth document "#" .empty) = .ok out) :
    (∀ n, outputTree document n out = sourceTree document n document) ∧
      ∀ r ∈ references document, ∃ next, target document r = .ok next ∧ (settle document next).isSome := by
  cases hw : within document depth document "#" .empty with
  | error e t =>
    rw [hw] at h
    cases h
  | ok v t =>
    rw [hw] at h
    cases h
    obtain ⟨hout, htargets, -⟩ := within_unfolds hd hlone hloop hmark depth document "#" .empty out t
      (Pointer.resolve_root document) (Faithful.empty document) hw
    refine ⟨hout.tree_eq, fun r hr => ?_⟩
    obtain ⟨next, ht⟩ := htargets r hr
    exact ⟨next, ht, settle_isSome hloop htargets fun q hq => refersTo_target ht hq⟩

/-- References that have targets of their own lead nowhere in circles. -/
theorem loopFree_of_direct (h : ∀ r ∈ references document, ∀ next, target document r = .ok next → refersTo next = none) :
    LoopFree document := by
  intro r hr
  have hmem : r ∈ references document := by
    obtain ⟨q, -, next, ht, hq⟩ := Relation.TransGen.tail'_iff.1 hr
    exact refersTo_target ht hq
  obtain ⟨q, ⟨next, ht, hq⟩, -⟩ := Relation.TransGen.head'_iff.1 hr
  rw [h r hmem next ht] at hq
  cases hq

end

/-- A list that goes on without end, and a reference to it. -/
def cyclic : Node :=
  .map none [("alias", .map none [("$ref", .str "#/cells")]),
    ("cells", .map none [("head", .int 1), ("tail", .list none [.map none [("$ref", .str "#/cells")]])])]

/-- What it is expanded to. -/
def cyclicOut : Node :=
  let tail := fun path => Node.list (some path) [stub "#/cells"]
  .map (some "#") [
    ("alias", .map (some "#/cells") [("$ref", .str "#/cells"), ("head", .int 1), ("tail", tail "#/cells/tail")]),
    ("cells", .map (some "#/cells") [("head", .int 1), ("tail", tail "#/cells/tail")])]

theorem cyclic_unfolds :
    Outcome.answer (within cyclic 2 cyclic "#" .empty) = .ok cyclicOut ∧
      ∀ n, outputTree cyclic n cyclicOut = sourceTree cyclic n cyclic := by
  have hout : Outcome.answer (within cyclic 2 cyclic "#" .empty) = .ok cyclicOut := by decide +kernel
  have hloop : LoopFree cyclic := by
    refine loopFree_of_direct fun r hr next ht => ?_
    have hall : references cyclic = ["#/cells", "#/cells"] := by rfl
    have hr : r = "#/cells" := by simpa [hall] using hr
    subst hr
    cases ht
    rfl
  exact ⟨hout, (expand_unfolds cyclic (by decide) (by decide) hloop (by decide) 2 cyclicOut hout).1⟩

/-- A mapping that holds a reference to text under the key of a mark. -/
def ambiguous : Node :=
  .map none [("a", .map none [("$ref", .map none [("$ref", .str "#/b")])]), ("b", .str "#/b")]

/-- What it is expanded to. -/
def ambiguousOut : Node :=
  .map (some "#") [("a", .map (some "#/a") [("$ref", .str "#/b")]), ("b", .str "#/b")]

/-- **Text under the key of a mark looks like a reference**: a mapping that is none becomes one if what it holds there leads to text. -/
theorem ambiguous_unfolds_otherwise :
    (ambiguous.Proper ∧ ambiguous.everywhere lone = true ∧ LoopFree ambiguous) ∧
    Outcome.answer (within ambiguous 1 ambiguous "#" .empty) = .ok ambiguousOut ∧
    outputTree ambiguous 2 ambiguousOut ≠ sourceTree ambiguous 2 ambiguous := by
  have hloop : LoopFree ambiguous := by
    refine loopFree_of_direct fun r hr next ht => ?_
    have hall : references ambiguous = ["#/b"] := by rfl
    have hr : r = "#/b" := by simpa [hall] using hr
    subst hr
    cases ht
    rfl
  refine ⟨⟨by decide, by decide, hloop⟩, by decide +kernel, fun h => ?_⟩
  -- under the key, text on one side and a mapping on the other
  have hentry := congrFun (Tree.map.inj h) "a"
  cases hentry

end Expansion
end TypedClient
