import TypedClient.Proofs.Expansion.Alike
import TypedClient.Proofs.Expansion.Inlining
/-!
# Uncut — what can be inlined is inlined

A state is **sound** if everything it remembers is what would be inlined at its place.  From a sound state, a node that can be
inlined is expanded to just that, no stub is made and the state stays sound (`expandNode_inlined`), as long as the places that are
being expanded **outrank** the node: they are not inlined at the depth at which it is, or stand above it in the tree.
-/
namespace TypedClient
namespace Expansion

/-! ## Sound states -/

/-- **Whether everything that is remembered is what would be inlined at its place.** -/
def Sound (document : Node) (s : Expansion) : Prop :=
  ∀ path v, s.finished.lookup path = some v → ∃ depth, inlineReference document depth path = .ok v

theorem sound_of_finished {document : Node} {s t : Expansion} (h : Sound document s) (hf : t.finished = s.finished) :
    Sound document t := fun path v hv => h path v (by rwa [← hf])

theorem sound_empty (document : Node) : Sound document .empty := fun _ _ h => by cases h

theorem sound_cons {document : Node} {s t : Expansion} {path : String} {v : Node} {depth : Nat} (h : Sound document s)
    (hv : inlineReference document depth path = .ok v) (ht : t.finished = (path, v) :: s.finished) : Sound document t := by
  intro q w hw
  rw [ht, List.lookup_cons] at hw
  by_cases hq : q = path
  · subst hq
    simp only [beq_self_eq_true, Option.some.injEq] at hw
    exact ⟨depth, by rw [hv, hw]⟩
  · rw [beq_false_of_ne hq] at hw
    exact h q w hw

theorem inlineNode_of_known {document node : Node} {s : Expansion} {path : String} {v : Node} (hs : Sound document s)
    (hk : s.finished.lookup path = some v) (ht : target document path = .ok node) :
    ∃ depth, inlineNode (inlineReference document depth) node path = .ok v := by
  obtain ⟨depth, hd⟩ := hs path v hk
  cases depth with
  | zero => cases hd
  | succ depth => exact ⟨depth, by rw [← inlineReference_target ht, hd]⟩

theorem inlineNode_unique {document node : Node} {path : String} {d e : Nat}
    (hd : inlineNode (inlineReference document d) node path ≠ .error .endless)
    (he : inlineNode (inlineReference document e) node path ≠ .error .endless) :
    inlineNode (inlineReference document d) node path = inlineNode (inlineReference document e) node path := by
  rcases Nat.le_total d e with h | h
  · exact (inlineNode_mono h hd).symm
  · exact inlineNode_mono h he

/-! ## Plain steps -/

/-- **A step that does plainly what is answered**: no stub is made, what is active stays so, and the state stays sound. -/
structure Plain {α : Type} (document : Node) (answer : Except ExpandError α) (s : Expansion) (r : Outcome α) : Prop where
  answer_eq : r.answer = answer
  stubs_eq : r.state.stubs = s.stubs
  active_iff : ∀ q, q ∈ r.state.active ↔ q ∈ s.active
  sound : Sound document r.state

namespace Plain

variable {α β : Type} {document : Node} {a : Except ExpandError α} {s : Expansion} {r : Outcome α}

theorem ok (v : α) (hs : Sound document s) : Plain document (.ok v) s (.ok v s) :=
  ⟨rfl, rfl, fun _ => Iff.rfl, hs⟩

theorem error (e : ExpandError) (hs : Sound document s) : Plain document (.error e) s (.error e s : Outcome α) :=
  ⟨rfl, rfl, fun _ => Iff.rfl, hs⟩

theorem map (h : Plain document a s r) (g : α → β) : Plain document (a.map g) s (r.map g) := by
  obtain ⟨ha, hst, hac, hso⟩ := h
  subst ha
  cases r with
  | ok v t => exact ⟨rfl, hst, hac, hso⟩
  | error e t => exact ⟨rfl, hst, hac, hso⟩

theorem andThen {k : α → Except ExpandError β} {l : α → Expansion → Outcome β} (h : Plain document a s r)
    (hk : ∀ v t, a = .ok v → t.stubs = s.stubs → (∀ q, q ∈ t.active ↔ q ∈ s.active) → Sound document t →
      Plain document (k v) t (l v t)) : Plain document (a.bind k) s (r.andThen l) := by
  obtain ⟨ha, hst, hac, hso⟩ := h
  subst ha
  cases r with
  | error e t => exact ⟨rfl, hst, hac, hso⟩
  | ok v t =>
    obtain ⟨ha', hst', hac', hso'⟩ := hk v t rfl hst hac hso
    exact ⟨ha', hst'.trans hst, fun q => (hac' q).trans (hac q), hso'⟩

theorem conclude {a : Except ExpandError Node} {r : Outcome Node} {path : String} (h : Plain document a (s.begin path) r)
    (hn : path ∉ s.active) (hv : ∀ v, a = .ok v → ∃ depth, inlineReference document depth path = .ok v) :
    Plain document a s (conclude path s r) := by
  obtain ⟨ha, hst, hac, hso⟩ := h
  subst ha
  have hact : ∀ t : Expansion, (∀ q, q ∈ t.active ↔ q ∈ (s.begin path).active) →
      ∀ q, q ∈ (t.finish path).active ↔ q ∈ s.active := by
    intro t ht q
    rw [mem_finish, ht q, mem_begin]
    constructor
    · rintro ⟨hq, hq' | hq'⟩
      · exact absurd hq' hq
      · exact hq'
    · intro hq
      exact ⟨fun hp => hn (hp ▸ hq), .inr hq⟩
  cases r with
  | error e t => exact ⟨rfl, hst, hact t hac, hso⟩
  | ok v t =>
    obtain ⟨depth, hd⟩ := hv v rfl
    rw [conclude_kept path v (show t.stubs = s.stubs from hst)]
    exact ⟨rfl, hst, hact t hac, sound_cons (s := t) hso hd rfl⟩

end Plain

/-! ## Ranks of active places -/

/-- What may come of an inlining: a value, or an error of those that are tolerated. -/
def Tolerated {α : Type} (P : ExpandError → Prop) (a : Except ExpandError α) : Prop := ∀ e, a = .error e → P e

/-- **Whether the places outrank a node that stands at `path` and is inlined at a depth**: what stands at them comes to nothing
at that depth, and, unless they stand above the node, at the next depth neither. -/
def Outranked (document : Node) (P : ExpandError → Prop) (active : List String) (path : String) (depth : Nat) : Prop :=
  ∀ q ∈ active, ¬ Tolerated P (inlineReference document depth q) ∧
    (¬ Tolerated P (inlineReference document (depth + 1) q) ∨ q.length < path.length)

section
variable {document : Node} {P : ExpandError → Prop}

theorem tolerated_ok {α : Type} (v : α) : Tolerated P (.ok v : Except ExpandError α) := fun _ h => by cases h

theorem Tolerated.left {α β : Type} {a : Except ExpandError α} {k : α → Except ExpandError β} (h : Tolerated P (a.bind k)) :
    Tolerated P a := by
  rintro e rfl
  exact h e rfl

theorem tolerated_map {α β : Type} (a : Except ExpandError α) (g : α → β) : Tolerated P (a.map g) ↔ Tolerated P a := by
  cases a <;> simp [Tolerated, Except.map]

theorem Tolerated.ne_endless {α : Type} {a : Except ExpandError α} (hP : ¬ P .endless) (h : Tolerated P a) :
    a ≠ .error .endless := fun ha => hP (h _ ha)

theorem tolerated_mono (hP : ¬ P .endless) {depth more : Nat} (hle : depth ≤ more) {q : String}
    (h : Tolerated P (inlineReference document depth q)) : Tolerated P (inlineReference document more q) := by
  rwa [inlineReference_mono hle (h.ne_endless hP)]

theorem outranked_congr {A B : List String} {path : String} {depth : Nat} (h : Outranked document P A path depth)
    (hAB : ∀ q, q ∈ B ↔ q ∈ A) : Outranked document P B path depth := fun q hq => h q ((hAB q).1 hq)

theorem outranked_mono (hP : ¬ P .endless) {A : List String} {path : String} {depth more : Nat} (hle : depth ≤ more)
    (h : Outranked document P A path more) : Outranked document P A path depth := by
  intro q hq
  obtain ⟨h1, h2⟩ := h q hq
  refine ⟨fun ht => h1 (tolerated_mono hP hle ht), ?_⟩
  rcases Nat.lt_or_ge depth more with hlt | hge
  · exact .inl fun ht => h1 (tolerated_mono hP hlt ht)
  · rwa [Nat.le_antisymm hle hge]

theorem not_mem_of_outranked {A : List String} {node : Node} {path : String} {depth : Nat}
    (h : Outranked document P A path depth) (ht : target document path = .ok node)
    (hn : Tolerated P (inlineNode (inlineReference document depth) node path)) : path ∉ A := by
  intro hm
  rcases (h path hm).2 with h2 | h2
  · rw [inlineReference_target ht] at h2
    exact h2 hn
  · exact Nat.lt_irrefl _ h2

/-- **At its least depth a node outranks its parts**, and so does what outranks the node. -/
theorem outranked_begin (hP : ¬ P .endless) {s : Expansion} {node : Node} {path q : String} {least : Nat}
    (h : Outranked document P s.active path least) (ht : target document path = .ok node)
    (hleast : ∀ less < least, ¬ Tolerated P (inlineNode (inlineReference document less) node path))
    (hlen : path.length < q.length) : Outranked document P (s.begin path).active q least := by
  intro r hr
  rcases (mem_begin path r s).1 hr with rfl | hr
  · refine ⟨?_, .inr hlen⟩
    cases least with
    | zero => exact fun ht => hP (ht _ rfl)
    | succ less =>
      rw [inlineReference_target ht]
      exact hleast less (Nat.lt_succ_self less)
  · obtain ⟨h1, h2⟩ := h r hr
    exact ⟨h1, h2.imp_right fun h => Nat.lt_trans h hlen⟩

theorem outranked_pred (hP : ¬ P .endless) {A : List String} {q path : String} {depth : Nat}
    (h : Outranked document P A q (depth + 1)) : Outranked document P A path depth := by
  intro r hr
  have h1 := (h r hr).1
  exact ⟨fun ht => h1 (tolerated_mono hP (Nat.le_succ depth) ht), .inl h1⟩

end

/-! ## What is expanded -/

section
variable {document : Node} {P : ExpandError → Prop}

theorem expandParts_plain {inl : String → Except ExpandError Node} {follow : String → Step Node} {A : List String} :
    ∀ (parts : List (String × Node)) (s : Expansion),
    (∀ q x, (q, x) ∈ parts → ∀ t, (∀ r, r ∈ t.active ↔ r ∈ A) → Sound document t → Tolerated P (inlineNode inl x q) →
      Plain document (inlineNode inl x q) t (expandNode follow x q t)) →
    (∀ r, r ∈ s.active ↔ r ∈ A) → Sound document s → Tolerated P (inlineParts inl parts) →
    Plain document (inlineParts inl parts) s (expandParts follow parts s)
  | [], s, _, _, hs, _ => Plain.ok [] hs
  | (q, x) :: rest, s, hx, hA, hs, h => by
    rw [inlineParts] at h
    rw [inlineParts, expandParts]
    refine (hx q x List.mem_cons_self s hA hs h.left).andThen fun y t hy _ hact ht => ?_
    rw [hy] at h
    have hrest : Tolerated P (inlineParts inl rest) := (tolerated_map (inlineParts inl rest) (y :: ·)).1 h
    have ih := expandParts_plain rest t (fun q x hm => hx q x (List.mem_cons_of_mem _ hm))
      (fun r => (hact r).trans (hA r)) ht hrest
    exact ih.map (y :: ·)

theorem follow_plain (hP : ¬ P .endless) {depth more : Nat} {reference : String} {s : Expansion} (hle : depth ≤ more)
    (hs : Sound document s) (h : Tolerated P (inlineReference document depth reference))
    (hnext : ∀ less l next, depth = less + 1 → less ≤ l → target document reference = .ok next →
      Tolerated P (inlineNode (inlineReference document less) next reference) →
      Plain document (inlineNode (inlineReference document less) next reference) s (within document l next reference s)) :
    Plain document (inlineReference document depth reference) s (follow document more reference s) := by
  obtain ⟨less, rfl⟩ : ∃ less, depth = less + 1 :=
    Nat.exists_eq_succ_of_ne_zero fun h0 => hP (h _ (by rw [h0, inlineReference]))
  obtain ⟨l, rfl⟩ : ∃ l, more = l + 1 := Nat.exists_eq_succ_of_ne_zero (by omega)
  cases hg : target document reference with
  | error e =>
    rw [inlineReference_error hg, follow_error hg]
    exact Plain.error e hs
  | ok next =>
    rw [inlineReference_target hg] at h
    rw [inlineReference_target hg, follow_target hg]
    exact hnext less l next rfl (by omega) hg h

/-- **What can be inlined is expanded to what it is inlined to**, plainly, from every sound state whose active places outrank
it. -/
theorem expandNode_inlined (hd : document.Proper) (hP : ¬ P .endless) (depth : Nat) : ∀ (node : Node) (path : String)
    (s : Expansion) (more : Nat), depth ≤ more → Pointer.resolve document path = .ok (some node) → Sound document s →
    Tolerated P (inlineNode (inlineReference document depth) node path) → Outranked document P s.active path depth →
    Plain document (inlineNode (inlineReference document depth) node path) s (within document more node path s) := by
  -- by the depth for what a reference leads to, by the node for its parts
  induction depth using Nat.strong_induction_on with
  | _ depth jump =>
  refine parts_induction fun node ih path s more hmore hr hs h ho => ?_
  by_cases hless : ∃ less < depth, Tolerated P (inlineNode (inlineReference document less) node path)
  · -- the node is inlined at a smaller depth
    obtain ⟨less, hlt, hl⟩ := hless
    rw [inlineNode_mono (Nat.le_of_lt hlt) (hl.ne_endless hP)]
    exact jump less hlt node path s more (by omega) hr hs hl (outranked_mono hP (Nat.le_of_lt hlt) ho)
  have hleast : ∀ less < depth, ¬ Tolerated P (inlineNode (inlineReference document less) node path) :=
    fun less hlt hl => hless ⟨less, hlt, hl⟩
  have hs' : Sound document (s.begin path) := sound_of_finished hs rfl
  have hbegin : form node path ≠ .leaf → ∀ q, path.length < q.length → Outranked document P (s.begin path).active q depth :=
    fun hf q => outranked_begin hP ho (target_of_placed hr hf) hleast
  have hn : form node path ≠ .leaf → path ∉ s.active := fun hf => not_mem_of_outranked ho (target_of_placed hr hf) h
  have hparts : ∀ q x, (q, x) ∈ (form node path).parts → ∀ t, (∀ r, r ∈ t.active ↔ r ∈ (s.begin path).active) →
      Sound document t → Tolerated P (inlineNode (inlineReference document depth) x q) →
      Plain document (inlineNode (inlineReference document depth) x q) t (within document more x q t) := by
    intro q x hm t hact ht' hx
    have hf : form node path ≠ .leaf := fun hf => by rw [hf] at hm; cases hm
    exact ih path q x hm q t more hmore (resolve_part hd hr hm) ht' hx
      (outranked_congr (hbegin hf q (length_lt_of_mem_parts node path q x hm)) hact)
  have hv : form node path ≠ .leaf → ∀ v, inlineNode (inlineReference document depth) node path = .ok v →
      ∃ d, inlineReference document d path = .ok v :=
    fun hf v hv => ⟨depth + 1, by rw [inlineReference_target (target_of_placed hr hf), hv]⟩
  have hknown : ∀ v, form node path ≠ .leaf → s.finished.lookup path = some v →
      inlineNode (inlineReference document depth) node path = .ok v := by
    intro v hf hk
    obtain ⟨d, hv⟩ := inlineNode_of_known hs hk (target_of_placed hr hf)
    rw [← inlineNode_unique (d := d) (by rw [hv]; simp) (h.ne_endless hP), hv]
  rw [inlineNode_form] at h hv hknown ⊢
  rw [within]
  cases expandNode_visit (follow document more) node path s with
  | leaf hf he =>
    rw [he, hf]
    exact Plain.ok node hs
  | known v hf hk he =>
    rw [he, hknown v hf hk]
    exact Plain.ok v hs
  | whole parts build hf hk he =>
    have hv := hv (by simp [hf])
    have hn := hn (by simp [hf])
    simp only [hf] at h hv hparts ⊢
    rw [he]
    refine Plain.conclude (Plain.map ?_ build) hn hv
    exact expandParts_plain parts _ hparts (fun _ => Iff.rfl) hs' ((tolerated_map _ build).1 h)
  | remote reference keys siblings hf hk hl he =>
    have hn := hn (by simp [hf])
    simp only [hf, hl, Bool.false_eq_true, if_false]
    rw [he]
    exact Plain.conclude (Plain.error _ hs') hn fun v h => by cases h
  | cut reference keys siblings hf hk hl ha he =>
    -- a place that is being expanded comes to nothing at this depth
    have hactive := hbegin (by simp [hf]) (Pointer.child path "") (Pointer.length_lt_child path "") reference ha
    simp only [hf, hl, if_true] at h
    exact absurd h.left hactive.1
  | followed reference keys siblings hf hk hl ha he =>
    have hbegin := hbegin (by simp [hf])
    have hv := hv (by simp [hf])
    have hn := hn (by simp [hf])
    simp only [hf, hl, if_true] at h hv hparts ⊢
    rw [he]
    have hfollow : Plain document (inlineReference document depth reference) (s.begin path)
        (follow document more reference (s.begin path)) := by
      refine follow_plain hP hmore hs' h.left fun less l next hdepth hle hg hnext => ?_
      subst hdepth
      exact jump less (Nat.lt_succ_self less) next reference _ l hle (target_eq_ok.1 hg).1 hs' hnext
        (outranked_pred hP (hbegin (Pointer.child path "") (Pointer.length_lt_child path "")))
    refine Plain.conclude (hfollow.andThen fun next t hnext _ hact ht' => ?_) hn hv
    rw [hnext] at h
    cases next with
    | map p found =>
      refine Plain.map ?_ (merged reference found keys)
      have hsib : Tolerated P (inlineParts (inlineReference document depth) siblings) :=
        (tolerated_map _ (merged reference found keys)).1 h
      exact expandParts_plain siblings t hparts hact ht' hsib
    | _ => exact Plain.ok _ ht'

end

/-! ## Whole documents -/

/-- **A document that can be inlined is expanded to just that**: the same tree with the same places, or the same error, and no
stub is made. -/
theorem expand_eq_inlined (document : Node) (hd : document.Proper) (depth : Nat)
    (h : inlined document depth ≠ .error .endless) :
    document.expand = inlined document depth ∧ (Outcome.state (expandAt document document "#" .empty)).stubs = 0 := by
  have hasked : asked document document = document := by
    cases document <;> rfl
  have hle : (references document).length ≤ depthLimit document document := by
    unfold depthLimit
    omega
  have hplain : Plain document (inlined document depth) .empty (expandAt document document "#" .empty) := by
    have hlimit := inlined_references h
    rw [← hlimit] at h ⊢
    unfold expandAt
    rw [hasked]
    refine expandNode_inlined (P := (· ≠ .endless)) hd (fun h => h rfl) _ document "#" .empty _ hle
      (Pointer.resolve_root document) (sound_empty document) (fun e he hn => h ?_) (fun q hq => by cases hq)
    rw [inlined, he, hn]
  refine ⟨?_, hplain.stubs_eq⟩
  rw [← hplain.answer_eq]
  unfold Node.expand Node.expandAt
  cases expandAt document document "#" .empty <;> rfl

/-- A reference through another one, with entries beside it. -/
def chained : Node :=
  .map none [("use", .map none [("title", .str "Use"), ("$ref", .str "#/alias"), ("extra", .list none [.null])]),
    ("alias", .map none [("$ref", .str "#/base")]), ("base", .map none [("title", .str "Base"), ("type", .str "object")])]

theorem chained_eq_inlined : inlined chained 2 ≠ .error .endless ∧ chained.expand = inlined chained 2 ∧
    (Outcome.state (expandAt chained chained "#" .empty)).stubs = 0 :=
  have h : inlined chained 2 ≠ .error .endless := fun h => by cases h
  ⟨h, expand_eq_inlined chained (by decide) 2 h⟩

example : chained.expand = .ok (.map (some "#") [
    ("use", .map (some "#/alias") [("$ref", .str "#/base"), ("title", .str "Use"), ("type", .str "object"),
      ("extra", .list (some "#/use/extra") [.null])]),
    ("alias", .map (some "#/base") [("$ref", .str "#/base"), ("title", .str "Base"), ("type", .str "object")]),
    ("base", .map (some "#/base") [("title", .str "Base"), ("type", .str "object")])]) := by rfl

end Expansion
end TypedClient
