import Mathlib.Data.List.Perm.Subperm
import Mathlib.Data.Nat.Find
import TypedClient.Proofs.Expansion.Depth
import TypedClient.Proofs.Expansion.Places
/-!
# Inlining — what an expansion without cycles is

**Plain inlining** puts the inlined target in the place of every reference.  It keeps no places and remembers nothing, so that it
may not come to an end; `inlined` bounds the jumps inside one another, and more of them keep what came to an end.

The **rank** of a reference is the least depth at which it is inlined.  It falls with every jump, so that there is a reference of
every rank below (`exists_references_of_ranks`): as much depth as there are references is always enough (`inlined_references`).
-/
namespace TypedClient
namespace Expansion

/-! ## Plain inlining -/

mutual
/-- **A tree with its references inlined**; `inlined` is what a reference comes to. -/
def inlineNode (inlined : String → Except ExpandError Node) : Node → String → Except ExpandError Node
  | .list _ items, path => do
    return .list (some path) (← inlineItems inlined items path 0)
  | .map _ entries, path =>
    match reference? entries with
    | none => do
      return .map (some path) (← inlineEntries inlined (fun _ => true) entries path)
    | some reference => do
      if !Text.startsWith reference "#" then throw (.remote reference)
      match ← inlined reference with
      | .map _ found =>
        let siblings ← inlineEntries inlined (· != referenceKey) entries path
        return .map (some reference) (setEntries (setEntries [(referenceKey, .str reference)] found) siblings)
      | node => return node
  | scalar, _ => return scalar

def inlineItems (inlined : String → Except ExpandError Node) : List Node → String → Nat → Except ExpandError (List Node)
  | [], _, _ => return []
  | x :: xs, path, index => do
    let y ← inlineNode inlined x (Pointer.item path index)
    return y :: (← inlineItems inlined xs path (index + 1))

def inlineEntries (inlined : String → Except ExpandError Node) (wanted : String → Bool) :
    List (String × Node) → String → Except ExpandError (List (String × Node))
  | [], _ => return []
  | (key, x) :: rest, path =>
    if wanted key then do
      let y ← inlineNode inlined x (Pointer.child path key)
      return (key, y) :: (← inlineEntries inlined wanted rest path)
    else inlineEntries inlined wanted rest path
end

/-- What a reference comes to, with at most `depth` jumps inside one another. -/
def inlineReference (document : Node) : Nat → String → Except ExpandError Node
  | 0, _ => .error .endless
  | depth + 1, reference =>
    match target document reference with
    | .error e => .error e
    | .ok node => inlineNode (inlineReference document depth) node reference

/-- **The document with its references inlined**, at most `depth` of them inside one another. -/
def inlined (document : Node) (depth : Nat) : Except ExpandError Node :=
  inlineNode (inlineReference document depth) document "#"

/-! ### One node -/

section
variable (inl : String → Except ExpandError Node)

/-- Inlines parts one after the other. -/
def inlineParts : List (String × Node) → Except ExpandError (List Node)
  | [] => .ok []
  | (path, x) :: rest => (inlineNode inl x path).bind fun y => (inlineParts rest).map (y :: ·)

/-- What a reference comes to when its target is inlined. -/
def inlineBeside (reference : String) (keys : List String) (siblings : List (String × Node)) (target : Node) :
    Except ExpandError Node :=
  match target with
  | .map _ found => (inlineParts inl siblings).map (merged reference found keys)
  | node => .ok node

theorem inlineItems_eq (path : String) : ∀ (items : List Node) (index : Nat),
    inlineItems inl items path index = inlineParts inl (partsOfItems path index items)
  | [], _ => rfl
  | x :: xs, index => by
    rw [partsOfItems, inlineParts, inlineItems, inlineItems_eq path xs (index + 1)]
    rfl

theorem inlineEntries_eq (wanted : String → Bool) (path : String) : ∀ entries : List (String × Node),
    inlineEntries inl wanted entries path =
      (inlineParts inl (partsOfEntries path (entries.filter fun e => wanted e.1))).map
        ((entries.filter fun e => wanted e.1).map (·.1)).zip
  | [] => rfl
  | (key, x) :: rest => by
    have ih := inlineEntries_eq wanted path rest
    by_cases hw : wanted key = true
    · rw [inlineEntries, if_pos hw, List.filter_cons_of_pos (by simpa using hw), ih]
      simp only [partsOfEntries, List.map_cons, inlineParts]
      cases inlineNode inl x (Pointer.child path key) with
      | error e => rfl
      | ok y => cases inlineParts inl _ <;> rfl
    · rw [inlineEntries, if_neg hw, List.filter_cons_of_neg (by simpa using hw), ih]

theorem inlineNode_form (node : Node) (path : String) :
    inlineNode inl node path =
      match form node path with
      | .leaf => .ok node
      | .whole parts build => (inlineParts inl parts).map build
      | .reference reference keys siblings =>
        if Text.startsWith reference "#" then (inl reference).bind (inlineBeside inl reference keys siblings)
        else .error (.remote reference) := by
  cases node with
  | list p items =>
    rw [inlineNode, form, inlineItems_eq]
    rfl
  | map p entries =>
    rw [inlineNode, form]
    cases hr : reference? entries with
    | none =>
      simp only
      rw [inlineEntries_eq, List.filter_eq_self.2 (fun _ _ => rfl)]
      cases inlineParts inl (partsOfEntries path entries) <;> rfl
    | some reference =>
      simp only
      cases hs : Text.startsWith reference "#" with
      | false => rfl
      | true =>
        simp only [if_true]
        cases inl reference with
        | error e => rfl
        | ok node =>
          cases node with
          | map q found =>
            simp only [Except.bind, inlineBeside]
            show (inlineEntries inl _ entries path).bind _ = _
            rw [inlineEntries_eq]
            cases inlineParts inl _ <;> rfl
          | _ => rfl
  | _ => rfl

end

/-! ## More depth -/

theorem bind_ne_left {α β : Type} {a : Except ExpandError α} {k : α → Except ExpandError β} {e : ExpandError}
    (h : a.bind k ≠ .error e) : a ≠ .error e := by
  rintro rfl
  exact h rfl

theorem map_ne_iff {α β : Type} (a : Except ExpandError α) (k : α → β) (e : ExpandError) :
    a.map k ≠ .error e ↔ a ≠ .error e := by
  cases a <;> simp [Except.map]

theorem inlineParts_congr {f g : String → Except ExpandError Node} : ∀ parts : List (String × Node),
    (∀ q x, (q, x) ∈ parts → inlineNode g x q ≠ .error .endless → inlineNode f x q = inlineNode g x q) →
    inlineParts g parts ≠ .error .endless → inlineParts f parts = inlineParts g parts
  | [], _, _ => rfl
  | (q, x) :: rest, hx, h => by
    rw [inlineParts] at h
    rw [inlineParts, inlineParts, hx q x List.mem_cons_self (bind_ne_left h)]
    cases hy : inlineNode g x q with
    | error e => rfl
    | ok y =>
      rw [hy] at h
      simp only [Except.bind, map_ne_iff] at h ⊢
      rw [inlineParts_congr rest (fun q x hm => hx q x (List.mem_cons_of_mem _ hm)) h]

/-- **Inlining looks at the references of the node only**, and where it comes to an end, at what they come to. -/
theorem inlineNode_congr {f g : String → Except ExpandError Node} : ∀ (node : Node) (path : String),
    (∀ r ∈ references node, g r ≠ .error .endless → f r = g r) → inlineNode g node path ≠ .error .endless →
    inlineNode f node path = inlineNode g node path := by
  refine parts_induction fun node ih path hfg h => ?_
  have hparts : ∀ q x, (q, x) ∈ (form node path).parts → inlineNode g x q ≠ .error .endless →
      inlineNode f x q = inlineNode g x q := fun q x hm =>
    ih path q x hm q fun r hr => hfg r (references_below (below_of_mem_parts node path q x hm) hr)
  rw [inlineNode_form] at h
  rw [inlineNode_form, inlineNode_form]
  cases hf : form node path with
  | leaf => rfl
  | whole parts build =>
    rw [hf] at h hparts
    simp only [map_ne_iff] at h ⊢
    rw [inlineParts_congr parts hparts h]
  | reference reference keys siblings =>
    rw [hf] at h hparts
    simp only at h ⊢
    by_cases hs : Text.startsWith reference "#" = true
    · simp only [hs, if_true] at h ⊢
      rw [hfg reference (mem_references_of_form hf) (bind_ne_left h)]
      cases ht : g reference with
      | error e => rfl
      | ok target =>
        rw [ht] at h
        cases target with
        | map p found =>
          simp only [Except.bind, inlineBeside, map_ne_iff] at h ⊢
          rw [inlineParts_congr siblings hparts h]
        | _ => rfl
    · rw [if_neg hs, if_neg hs]

variable {document : Node}

theorem inlineReference_target {node : Node} {reference : String} (ht : target document reference = .ok node)
    (depth : Nat) :
    inlineReference document (depth + 1) reference = inlineNode (inlineReference document depth) node reference := by
  rw [inlineReference, ht]

theorem inlineReference_error {reference : String} {e : ExpandError} (ht : target document reference = .error e)
    (depth : Nat) : inlineReference document (depth + 1) reference = .error e := by
  rw [inlineReference, ht]

theorem inlineReference_succ : ∀ (depth : Nat) (reference : String),
    inlineReference document depth reference ≠ .error .endless →
      inlineReference document (depth + 1) reference = inlineReference document depth reference
  | 0, _, h => absurd rfl h
  | depth + 1, reference, h => by
    cases ht : target document reference with
    | error e => rw [inlineReference_error ht, inlineReference_error ht]
    | ok node =>
      rw [inlineReference_target ht] at h
      rw [inlineReference_target ht, inlineReference_target ht]
      exact inlineNode_congr node reference (fun r _ => inlineReference_succ depth r) h

/-- **More depth keeps what a reference comes to.** -/
theorem inlineReference_mono {depth more : Nat} (hle : depth ≤ more) {reference : String}
    (h : inlineReference document depth reference ≠ .error .endless) :
    inlineReference document more reference = inlineReference document depth reference := by
  induction hle with
  | refl => rfl
  | @step more _ ih => rw [inlineReference_succ more reference (by rwa [ih]), ih]

theorem inlineNode_mono {depth more : Nat} (hle : depth ≤ more) {node : Node} {path : String}
    (h : inlineNode (inlineReference document depth) node path ≠ .error .endless) :
    inlineNode (inlineReference document more) node path = inlineNode (inlineReference document depth) node path :=
  inlineNode_congr node path (fun _ _ hr => inlineReference_mono hle hr) h

theorem target_of_placed {node : Node} {path : String} (hr : Pointer.resolve document path = .ok (some node))
    (hf : form node path ≠ .leaf) : target document path = .ok node :=
  target_eq_ok.2 ⟨hr, fun hn => hf (by rw [hn]; rfl)⟩

/-! ## Ranks -/

/-- Below a node that is inlined at a depth and not at the depth before, some reference is so too. -/
theorem exists_reference_of_rank {depth : Nat} {node : Node} {path : String}
    (h : inlineNode (inlineReference document (depth + 1)) node path ≠ .error .endless)
    (hless : inlineNode (inlineReference document depth) node path = .error .endless) :
    ∃ r ∈ references node, inlineReference document (depth + 1) r ≠ .error .endless ∧
      inlineReference document depth r = .error .endless := by
  by_contra hnone
  simp only [not_exists, not_and] at hnone
  have heq : inlineNode (inlineReference document depth) node path =
      inlineNode (inlineReference document (depth + 1)) node path :=
    inlineNode_congr node path (fun r hr hg => (inlineReference_succ depth r (hnone r hr hg)).symm) h
  exact h (heq.symm.trans hless)

/-- **There is a reference of every rank below**: as many different references as the least depth that inlines a node. -/
theorem exists_references_of_ranks : ∀ (depth : Nat) (node : Node) (path : String),
    (∀ r ∈ references node, r ∈ references document) →
    inlineNode (inlineReference document depth) node path ≠ .error .endless →
    (∀ less < depth, inlineNode (inlineReference document less) node path = .error .endless) →
    ∃ rs : List String, rs.length = depth ∧ rs.Nodup ∧
      ∀ r ∈ rs, r ∈ references document ∧ inlineReference document depth r ≠ .error .endless
  | 0, _, _, _, _, _ => ⟨[], rfl, List.nodup_nil, fun _ h => by cases h⟩
  | depth + 1, node, path, hrefs, h, hleast => by
    obtain ⟨r, hr, hrank, hless⟩ := exists_reference_of_rank h (hleast depth (Nat.lt_succ_self depth))
    have hsub : ∃ rs : List String, rs.length = depth ∧ rs.Nodup ∧
        ∀ r ∈ rs, r ∈ references document ∧ inlineReference document depth r ≠ .error .endless := by
      cases ht : target document r with
      | error e =>
        cases depth with
        | zero => exact ⟨[], rfl, List.nodup_nil, fun _ h => by cases h⟩
        | succ depth =>
          rw [inlineReference_error ht] at hless
          exact absurd (ht.trans hless) (target_ne_endless document r)
      | ok next =>
        rw [inlineReference_target ht] at hrank
        refine exists_references_of_ranks depth next r
          (fun s hs => references_resolve (target_eq_ok.1 ht).1 hs) hrank (fun less hl => ?_)
        rw [← inlineReference_target ht]
        by_contra hne
        rw [inlineReference_mono hl hne] at hless
        exact hne hless
    obtain ⟨rs, hlen, hnodup, hall⟩ := hsub
    refine ⟨r :: rs, by rw [List.length_cons, hlen], List.nodup_cons.2 ⟨fun hm => (hall r hm).2 hless, hnodup⟩, ?_⟩
    intro s hs
    rcases List.mem_cons.1 hs with rfl | hs
    · exact ⟨hrefs s hr, hrank⟩
    · refine ⟨(hall s hs).1, ?_⟩
      rw [inlineReference_mono (Nat.le_succ depth) (hall s hs).2]
      exact (hall s hs).2

/-- **Where inlining comes to an end, it does so with as much depth as there are references.** -/
theorem inlined_references {depth : Nat} (h : inlined document depth ≠ .error .endless) :
    inlined document (references document).length = inlined document depth := by
  classical
  have hex : ∃ d, inlined document d ≠ .error .endless := ⟨depth, h⟩
  obtain ⟨rs, hlen, hnodup, hall⟩ := exists_references_of_ranks (Nat.find hex) document "#" (fun _ h => h)
    (Nat.find_spec hex) (fun less hl => Decidable.not_not.1 (Nat.find_min hex hl))
  have hle : Nat.find hex ≤ (references document).length := by
    rw [← hlen]
    exact (hnodup.subperm fun r hr => (hall r hr).1).length_le
  rw [inlined, inlineNode_mono hle (Nat.find_spec hex)]
  exact (inlineNode_mono (Nat.find_min' hex h) (Nat.find_spec hex)).symm

end Expansion
end TypedClient
