import TypedClient.Proofs.Pointer
import TypedClient.Document.Expand
/-!
# Walk — an expansion, one node at a time

What an expansion does at a node depends on the node's **form**: there is nothing to expand, or there are parts, or there is a
reference with parts beside it.  Every fact about expansions is proved by going through the cases of a **visit**
(`expandNode_visit`), by induction on the parts of a node (`parts_induction`) and, behind a reference, on the depth.
-/
namespace TypedClient
namespace Expansion

/-! ## Outcomes -/

/-- What a step ends with: a value or an error, and what is known then. -/
abbrev Outcome (α : Type) := EStateM.Result ExpandError Expansion α

namespace Outcome

/-- The value or the error alone. -/
def answer {α : Type} : Outcome α → Except ExpandError α
  | .ok a _ => .ok a
  | .error e _ => .error e

/-- What is known at the end. -/
def state {α : Type} : Outcome α → Expansion
  | .ok _ s => s
  | .error _ s => s

/-- The outcome with its value changed. -/
def map {α β : Type} (g : α → β) : Outcome α → Outcome β
  | .ok a s => .ok (g a) s
  | .error e s => .error e s

/-- What comes of an outcome if its value is used further. -/
def andThen {α β : Type} (r : Outcome α) (k : α → Expansion → Outcome β) : Outcome β :=
  match r with
  | .ok a s => k a s
  | .error e s => .error e s

/-- **Whether a step came to an end**: it did not run out of depth. -/
def Ended {α : Type} (r : Outcome α) : Prop := r.answer ≠ .error .endless

@[simp] theorem ended_ok {α : Type} (a : α) (s : Expansion) : Ended (.ok a s : Outcome α) :=
  fun h => by cases h

@[simp] theorem ended_error {α : Type} (e : ExpandError) (s : Expansion) :
    Ended (.error e s : Outcome α) ↔ e ≠ .endless := by
  simp [Ended, answer]

@[simp] theorem state_map {α β : Type} (g : α → β) (r : Outcome α) : (r.map g).state = r.state := by
  cases r <;> rfl

theorem ended_map {α β : Type} (g : α → β) (r : Outcome α) : (r.map g).Ended ↔ r.Ended := by
  cases r <;> simp [map]

theorem Ended.first {α β : Type} {r : Outcome α} {k : α → Expansion → Outcome β} (h : (r.andThen k).Ended) :
    r.Ended := by
  cases r with
  | ok a s => exact ended_ok a s
  | error e s => exact (ended_error e s).2 ((ended_error (α := β) e s).1 h)

end Outcome

theorem bind_apply {α β : Type} (x : Step α) (k : α → Step β) (s : Expansion) :
    (x >>= k) s = Outcome.andThen (x s) k := by
  show EStateM.bind x k s = _
  unfold EStateM.bind Outcome.andThen
  cases x s <;> rfl

theorem bind_pure_apply {α β : Type} (x : Step α) (g : α → β) (s : Expansion) :
    (x >>= fun a => pure (g a)) s = Outcome.map g (x s) := by
  rw [bind_apply]
  cases x s <;> rfl

/-! ## Forms -/

/-- What an expansion finds at a node: nothing to expand; parts, each at its place, and what is built of their expansions; or
a reference, and beside it parts with their keys. -/
inductive Form where
  | leaf
  | whole (parts : List (String × Node)) (build : List Node → Node)
  | reference (reference : String) (keys : List String) (siblings : List (String × Node))

/-- The items of a list from an index on, at their places. -/
def partsOfItems (path : String) : Nat → List Node → List (String × Node)
  | _, [] => []
  | index, x :: xs => (Pointer.item path index, x) :: partsOfItems path (index + 1) xs

/-- The values of entries, at their places. -/
def partsOfEntries (path : String) (entries : List (String × Node)) : List (String × Node) :=
  entries.map fun (key, x) => (Pointer.child path key, x)

/-- The form of a node that stands at a place. -/
def form (node : Node) (path : String) : Form :=
  match node with
  | .list _ items => .whole (partsOfItems path 0 items) (.list (some path))
  | .map _ entries =>
    match reference? entries with
    | none => .whole (partsOfEntries path entries) fun ys => .map (some path) ((entries.map (·.1)).zip ys)
    | some reference =>
      let siblings := entries.filter fun e => e.1 != referenceKey
      .reference reference (siblings.map (·.1)) (partsOfEntries path siblings)
  | _ => .leaf

theorem form_map_ne_leaf (p : Option String) (entries : List (String × Node)) (path : String) :
    form (.map p entries) path ≠ .leaf := by
  unfold form
  cases hr : reference? entries <;> simp [hr]

theorem form_map_whole {p : Option String} {entries parts : List (String × Node)} {path : String} {build : List Node → Node}
    (hf : form (.map p entries) path = .whole parts build) :
    reference? entries = none ∧ parts = partsOfEntries path entries ∧
      build = fun ys => .map (some path) ((entries.map (·.1)).zip ys) := by
  unfold form at hf
  cases hr : reference? entries with
  | some r => simp [hr] at hf
  | none =>
    simp only [hr, Form.whole.injEq] at hf
    exact ⟨rfl, hf.1.symm, hf.2.symm⟩

theorem form_map_reference {p : Option String} {entries siblings : List (String × Node)} {path reference : String}
    {keys : List String} (hf : form (.map p entries) path = .reference reference keys siblings) :
    reference? entries = some reference ∧ keys = (entries.filter fun e => e.1 != referenceKey).map (·.1) ∧
      siblings = partsOfEntries path (entries.filter fun e => e.1 != referenceKey) := by
  unfold form at hf
  cases hr : reference? entries with
  | none => simp [hr] at hf
  | some r =>
    simp only [hr, Form.reference.injEq] at hf
    exact ⟨congrArg some hf.1, hf.2.1.symm, hf.2.2.symm⟩

/-- The parts of a form. -/
def Form.parts : Form → List (String × Node)
  | .leaf => []
  | .whole parts _ => parts
  | .reference _ _ siblings => siblings

/-- A reference to a mapping: its mark, what was found, and what stands beside it. -/
def merged (reference : String) (found : List (String × Node)) (keys : List String) (ys : List Node) : Node :=
  .map (some reference) (setEntries (setEntries [(referenceKey, .str reference)] found) (keys.zip ys))

/-! ## One node -/

section
variable (follow : String → Step Node)

/-- Expands parts one after the other. -/
def expandParts : List (String × Node) → Expansion → Outcome (List Node)
  | [], s => .ok [] s
  | (path, x) :: rest, s =>
    Outcome.andThen (expandNode follow x path s) fun y t => (expandParts rest t).map (y :: ·)

/-- What a reference comes to when its target has been expanded: nothing stands beside a target that is no mapping. -/
def beside (reference : String) (keys : List String) (siblings : List (String × Node)) (target : Node) (s : Expansion) :
    Outcome Node :=
  match target with
  | .map _ found => (expandParts follow siblings s).map (merged reference found keys)
  | node => .ok node s

/-- What is left when the expansion of a place that began in state `s` ends: the place is no longer active, and its expansion
is remembered if it made no stub. -/
def conclude (path : String) (s : Expansion) : Outcome Node → Outcome Node
  | .ok node t =>
    let t := t.finish path
    .ok node (if t.stubs = s.stubs then { t with finished := (path, node) :: t.finished } else t)
  | .error e t => .error e (t.finish path)

theorem conclude_kept (path : String) {s t : Expansion} (v : Node) (h : t.stubs = s.stubs) :
    conclude path s (.ok v t) = .ok v { t.finish path with finished := (path, v) :: t.finished } :=
  congrArg (EStateM.Result.ok v) (if_pos h)

theorem conclude_stubbed (path : String) {s t : Expansion} (v : Node) (h : t.stubs ≠ s.stubs) :
    conclude path s (.ok v t) = .ok v (t.finish path) :=
  congrArg (EStateM.Result.ok v) (if_neg h)

@[simp] theorem conclude_answer (path : String) (s : Expansion) (r : Outcome Node) :
    (conclude path s r).answer = r.answer := by
  cases r <;> rfl

@[simp] theorem conclude_stubs (path : String) (s : Expansion) (r : Outcome Node) :
    (conclude path s r).state.stubs = r.state.stubs := by
  cases r with
  | error e t => rfl
  | ok v t =>
    by_cases h : t.stubs = s.stubs
    · rw [conclude_kept path v h]
      rfl
    · rw [conclude_stubbed path v h]
      rfl

theorem place_unknown (path : String) (body : Step Node) (s : Expansion) (hk : s.finished.lookup path = none) :
    place path body s = conclude path s (body (s.begin path)) := by
  unfold place conclude
  rw [hk]
  cases body (s.begin path) <;> rfl

theorem place_known (path : String) (body : Step Node) (s : Expansion) (v : Node)
    (hk : s.finished.lookup path = some v) : place path body s = .ok v s := by
  unfold place
  rw [hk]

theorem expandItems_eq (path : String) : ∀ (items : List Node) (index : Nat) (s : Expansion),
    expandItems follow items path index s = expandParts follow (partsOfItems path index items) s
  | [], _, _ => rfl
  | x :: xs, index, s => by
    rw [partsOfItems, expandParts, expandItems, bind_apply]
    congr 1
    funext y t
    rw [bind_pure_apply, expandItems_eq path xs (index + 1) t]

theorem expandEntries_eq (wanted : String → Bool) (path : String) : ∀ (entries : List (String × Node)) (s : Expansion),
    expandEntries follow wanted entries path s =
      (expandParts follow (partsOfEntries path (entries.filter fun e => wanted e.1)) s).map
        ((entries.filter fun e => wanted e.1).map (·.1)).zip
  | [], _ => rfl
  | (key, x) :: rest, s => by
    have ih := expandEntries_eq wanted path rest
    by_cases hw : wanted key = true
    · rw [expandEntries, if_pos hw, List.filter_cons_of_pos (by simpa using hw), bind_apply]
      simp only [partsOfEntries, List.map_cons, expandParts] at ih ⊢
      cases expandNode follow x (Pointer.child path key) s with
      | error e t => rfl
      | ok y t =>
        simp only [Outcome.andThen]
        rw [bind_pure_apply, ih t]
        cases expandParts follow _ t <;> rfl
    · rw [expandEntries, if_neg hw, List.filter_cons_of_neg (by simpa using hw)]
      exact ih s

/-- What a reference comes to: an error, a stub or the expansion of its target with what stands beside it. -/
def refer (reference : String) (keys : List String) (siblings : List (String × Node)) : Step Node := fun s =>
  Outcome.andThen (followUnlessActive follow reference s) fun found t =>
    if found.2 then .ok found.1 t else beside follow reference keys siblings found.1 t

theorem expandNode_form (node : Node) (path : String) :
    expandNode follow node path =
      match form node path with
      | .leaf => pure node
      | .whole parts build => place path fun s => (expandParts follow parts s).map build
      | .reference reference keys siblings => place path (refer follow reference keys siblings) := by
  cases node with
  | list p items =>
    rw [expandNode, form]
    congr 1
    funext s
    rw [bind_pure_apply, expandItems_eq]
  | map p entries =>
    rw [expandNode, form]
    cases hr : reference? entries with
    | none =>
      simp only
      congr 1
      funext s
      rw [bind_pure_apply, expandEntries_eq, List.filter_eq_self.2 (fun _ _ => rfl)]
      cases expandParts follow (partsOfEntries path entries) s <;> rfl
    | some reference =>
      simp only
      congr 1
      funext s
      rw [bind_apply]
      unfold refer
      congr 1
      funext found t
      obtain ⟨node, isStub⟩ := found
      cases isStub with
      | true => cases node <;> rfl
      | false =>
        cases node with
        | map q found =>
          simp only [Bool.false_eq_true, if_false, beside]
          rw [bind_pure_apply, expandEntries_eq]
          cases expandParts follow _ t <;> rfl
        | _ => rfl
  | _ => rfl

/-! ### The cases of a node -/

variable {follow} {node : Node} {path reference : String} {s : Expansion} {v : Node} {parts siblings : List (String × Node)}
  {build : List Node → Node} {keys : List String}

theorem expandNode_leaf (hf : form node path = .leaf) : expandNode follow node path s = .ok node s := by
  rw [expandNode_form, hf]
  rfl

theorem expandNode_known (hf : form node path ≠ .leaf) (hk : s.finished.lookup path = some v) :
    expandNode follow node path s = .ok v s := by
  rw [expandNode_form]
  cases h : form node path with
  | leaf => exact absurd h hf
  | whole parts build => exact place_known path _ s v hk
  | reference reference keys siblings => exact place_known path _ s v hk

theorem expandNode_whole (hf : form node path = .whole parts build) (hk : s.finished.lookup path = none) :
    expandNode follow node path s = conclude path s ((expandParts follow parts (s.begin path)).map build) := by
  rw [expandNode_form, hf]
  exact place_unknown path _ s hk

theorem expandNode_remote (hf : form node path = .reference reference keys siblings)
    (hk : s.finished.lookup path = none) (hr : Text.startsWith reference "#" = false) :
    expandNode follow node path s = conclude path s (.error (.remote reference) (s.begin path)) := by
  rw [expandNode_form, hf]
  simp only
  rw [place_unknown path _ s hk]
  simp [refer, followUnlessActive, hr, Outcome.andThen]

theorem expandNode_cut (hf : form node path = .reference reference keys siblings)
    (hk : s.finished.lookup path = none) (hr : Text.startsWith reference "#" = true)
    (ha : reference ∈ (s.begin path).active) :
    expandNode follow node path s =
      conclude path s (.ok (stub reference) { s.begin path with stubs := s.stubs + 1 }) := by
  rw [expandNode_form, hf]
  simp only
  rw [place_unknown path _ s hk]
  have hs : (s.begin path).stubs = s.stubs := rfl
  simp [refer, followUnlessActive, hr, ha, Outcome.andThen, hs]

theorem expandNode_followed (hf : form node path = .reference reference keys siblings)
    (hk : s.finished.lookup path = none) (hr : Text.startsWith reference "#" = true)
    (ha : reference ∉ (s.begin path).active) :
    expandNode follow node path s =
      conclude path s (Outcome.andThen (follow reference (s.begin path)) (beside follow reference keys siblings)) := by
  rw [expandNode_form, hf]
  simp only
  rw [place_unknown path _ s hk]
  have hu : followUnlessActive follow reference (s.begin path) =
      Outcome.map (fun node => (node, false)) (follow reference (s.begin path)) := by
    unfold followUnlessActive
    simp only [hr, Bool.not_true, Bool.false_eq_true, if_false, List.contains_eq_mem, ha, decide_false]
    cases follow reference (s.begin path) <;> rfl
  rw [refer, hu]
  cases follow reference (s.begin path) <;> rfl

/-- **What comes of an expansion at a node**, case by case. -/
inductive Visit (follow : String → Step Node) (node : Node) (path : String) (s : Expansion) (r : Outcome Node) : Prop where
  | leaf (hf : form node path = .leaf) (he : r = .ok node s)
  | known (v : Node) (hf : form node path ≠ .leaf) (hk : s.finished.lookup path = some v) (he : r = .ok v s)
  | whole (parts : List (String × Node)) (build : List Node → Node) (hf : form node path = .whole parts build)
    (hk : s.finished.lookup path = none) (he : r = conclude path s ((expandParts follow parts (s.begin path)).map build))
  | remote (reference : String) (keys : List String) (siblings : List (String × Node))
    (hf : form node path = .reference reference keys siblings) (hk : s.finished.lookup path = none)
    (hl : Text.startsWith reference "#" = false) (he : r = conclude path s (.error (.remote reference) (s.begin path)))
  | cut (reference : String) (keys : List String) (siblings : List (String × Node))
    (hf : form node path = .reference reference keys siblings) (hk : s.finished.lookup path = none)
    (hl : Text.startsWith reference "#" = true) (ha : reference ∈ (s.begin path).active)
    (he : r = conclude path s (.ok (stub reference) { s.begin path with stubs := s.stubs + 1 }))
  | followed (reference : String) (keys : List String) (siblings : List (String × Node))
    (hf : form node path = .reference reference keys siblings) (hk : s.finished.lookup path = none)
    (hl : Text.startsWith reference "#" = true) (ha : reference ∉ (s.begin path).active)
    (he : r = conclude path s
      (Outcome.andThen (follow reference (s.begin path)) (beside follow reference keys siblings)))

theorem expandNode_visit (follow : String → Step Node) (node : Node) (path : String) (s : Expansion) :
    Visit follow node path s (expandNode follow node path s) := by
  by_cases hleaf : form node path = .leaf
  · exact .leaf hleaf (expandNode_leaf hleaf)
  cases hk : s.finished.lookup path with
  | some v => exact .known v hleaf hk (expandNode_known hleaf hk)
  | none =>
    cases hf : form node path with
    | leaf => exact absurd hf hleaf
    | whole parts build => exact .whole parts build hf hk (expandNode_whole hf hk)
    | reference reference keys siblings =>
      cases hl : Text.startsWith reference "#" with
      | false => exact .remote reference keys siblings hf hk hl (expandNode_remote hf hk hl)
      | true =>
        by_cases ha : reference ∈ (s.begin path).active
        · exact .cut reference keys siblings hf hk hl ha (expandNode_cut hf hk hl ha)
        · exact .followed reference keys siblings hf hk hl ha (expandNode_followed hf hk hl ha)

end

/-! ## References -/

theorem follow_zero (document : Node) (reference : String) (s : Expansion) :
    follow document 0 reference s = .error .endless s := rfl

theorem follow_target {document node : Node} {reference : String} (ht : target document reference = .ok node) (depth : Nat)
    (s : Expansion) : follow document (depth + 1) reference s = within document depth node reference s := by
  rw [follow, ht]
  rfl

theorem follow_error {document : Node} {reference : String} {e : ExpandError} (ht : target document reference = .error e)
    (depth : Nat) (s : Expansion) : follow document (depth + 1) reference s = .error e s := by
  rw [follow, ht]
  rfl

theorem target_eq_ok {document node : Node} {reference : String} :
    target document reference = .ok node ↔ Pointer.resolve document reference = .ok (some node) ∧ node ≠ .null := by
  unfold target
  split
  · rename_i h
    simp [h]
  · rename_i h
    simp [h]
  · rename_i h
    simp only [reduceCtorEq, h, Except.ok.injEq, Option.some.injEq, false_iff, not_and, Decidable.not_not]
    exact fun h => h.symm
  · rename_i v hv h
    rw [h]
    simp only [Except.ok.injEq, Option.some.injEq]
    exact ⟨fun h => ⟨h, fun hn => hv (h.trans hn)⟩, And.left⟩

theorem target_ne_endless (document : Node) (reference : String) : target document reference ≠ .error .endless := by
  unfold target
  split <;> simp

/-! ## Parts -/

theorem mem_of_mem_partsOfItems (path q : String) (x : Node) : ∀ (items : List Node) (index : Nat),
    (q, x) ∈ partsOfItems path index items → ∃ i, items[i]? = some x ∧ q = Pointer.item path (index + i)
  | [], _, h => by cases h
  | y :: ys, index, h => by
    rcases List.mem_cons.1 h with h | h
    · obtain ⟨rfl, rfl⟩ := Prod.mk.inj h
      exact ⟨0, rfl, rfl⟩
    · obtain ⟨i, hi, hq⟩ := mem_of_mem_partsOfItems path q x ys (index + 1) h
      exact ⟨i + 1, hi, by rw [hq]; congr 1; omega⟩

theorem mem_of_mem_partsOfEntries (path q : String) (x : Node) (entries : List (String × Node))
    (h : (q, x) ∈ partsOfEntries path entries) : ∃ key, (key, x) ∈ entries ∧ q = Pointer.child path key := by
  obtain ⟨⟨key, y⟩, hm, he⟩ := List.mem_map.1 h
  obtain ⟨rfl, rfl⟩ := Prod.mk.inj he
  exact ⟨key, hm, rfl⟩

theorem mem_parts (node : Node) (path q : String) (x : Node) (h : (q, x) ∈ (form node path).parts) :
    (∃ p items i, node = .list p items ∧ items[i]? = some x ∧ q = Pointer.item path i) ∨
    (∃ p entries key, node = .map p entries ∧ (key, x) ∈ entries ∧ q = Pointer.child path key) := by
  cases node with
  | list p items =>
    obtain ⟨i, hi, hq⟩ := mem_of_mem_partsOfItems path q x items 0 h
    exact .inl ⟨p, items, i, rfl, hi, by rw [hq, Nat.zero_add]⟩
  | map p entries =>
    unfold form at h
    cases hr : reference? entries with
    | none =>
      simp only [hr, Form.parts] at h
      obtain ⟨key, hm, hq⟩ := mem_of_mem_partsOfEntries path q x entries h
      exact .inr ⟨p, entries, key, rfl, hm, hq⟩
    | some reference =>
      simp only [hr, Form.parts] at h
      obtain ⟨key, hm, hq⟩ := mem_of_mem_partsOfEntries path q x _ h
      exact .inr ⟨p, entries, key, rfl, (List.mem_filter.1 hm).1, hq⟩
  | _ => cases h

/-- What stands one step below a node: an item or a value. -/
inductive Below : Node → Node → Prop where
  | item {path : Option String} {items : List Node} {x : Node} (h : x ∈ items) : Below x (.list path items)
  | value {path : Option String} {entries : List (String × Node)} {key : String} {x : Node} (h : (key, x) ∈ entries) :
    Below x (.map path entries)

theorem below_of_mem_parts (node : Node) (path q : String) (x : Node) (h : (q, x) ∈ (form node path).parts) :
    Below x node := by
  rcases mem_parts node path q x h with ⟨p, items, i, rfl, hi, -⟩ | ⟨p, entries, key, rfl, hm, -⟩
  · exact .item (List.mem_of_getElem? hi)
  · exact .value hm

theorem sizeOf_lt_of_below (x node : Node) (h : Below x node) : sizeOf x < sizeOf node := by
  cases h with
  | item h =>
    have := List.sizeOf_lt_of_mem h
    simp only [Node.list.sizeOf_spec]
    omega
  | value h =>
    have := List.sizeOf_lt_of_mem h
    simp only [Node.map.sizeOf_spec, Prod.mk.sizeOf_spec] at this ⊢
    omega

/-- **Induction on the parts of a node.** -/
theorem parts_induction {motive : Node → Prop}
    (step : ∀ node, (∀ path q x, (q, x) ∈ (form node path).parts → motive x) → motive node) (node : Node) : motive node :=
  step node fun path q x h =>
    have := sizeOf_lt_of_below x node (below_of_mem_parts node path q x h)
    parts_induction step x
termination_by sizeOf node

theorem length_lt_of_mem_parts (node : Node) (path q : String) (x : Node) (h : (q, x) ∈ (form node path).parts) :
    path.length < q.length := by
  rcases mem_parts node path q x h with ⟨p, items, i, -, -, rfl⟩ | ⟨p, entries, key, -, -, rfl⟩
  · exact Pointer.length_lt_item path i
  · exact Pointer.length_lt_child path key

end Expansion
end TypedClient
