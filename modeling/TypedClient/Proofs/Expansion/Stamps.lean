import TypedClient.Proofs.Expansion.Faithful
/-!
# Stamps — what an expansion is stamped with

Where an expansion is cut and what is used again depends on the way that it took.  Leaving that open, there are a few things
that a node can come to (`Expands`), and every expansion of a node in a document is one of them (`within_expands`): a mapping
that is no reference is stamped with the place at which it stands, and a reference with its own pointer, which need not be
the place of what it leads to.
-/
namespace TypedClient
namespace Expansion

/-! ## What a node can come to -/

/-- **What a node of a document can be expanded to**, wherever its cycles are cut. -/
inductive Expands (document : Node) : Node → String → Node → Prop
  | leaf {node path} (hf : form node path = .leaf) : Expands document node path node
  | whole {node path parts build ys} (hf : form node path = .whole parts build)
      (hparts : List.Forall₂ (fun part y => Expands document part.2 part.1 y) parts ys) : Expands document node path (build ys)
  | cut {node path reference keys siblings} (hf : form node path = .reference reference keys siblings) :
      Expands document node path (stub reference)
  | passed {node path reference keys siblings next v} (hf : form node path = .reference reference keys siblings)
      (ht : target document reference = .ok next) (hnext : Expands document next reference v)
      (hv : ∀ p found, v ≠ .map p found) : Expands document node path v
  | joined {node path reference keys siblings next p found ys} (hf : form node path = .reference reference keys siblings)
      (ht : target document reference = .ok next) (hnext : Expands document next reference (.map p found))
      (hparts : List.Forall₂ (fun part y => Expands document part.2 part.1 y) siblings ys) :
      Expands document node path (merged reference found keys ys)

/-- **A state in which what is remembered is what its place can come to.** -/
def Remembers (document : Node) (s : Expansion) : Prop :=
  ∀ path v node, s.finished.lookup path = some v → Pointer.resolve document path = .ok (some node) →
    Expands document node path v

section Walk

variable {document node v : Node} {s t : Expansion} {path : String}

theorem remembers_empty (document : Node) : Remembers document .empty :=
  fun _ _ _ h _ => by cases h

theorem Remembers.conclude {r : Outcome Node} (hr : Pointer.resolve document path = .ok (some node))
    (h : conclude path s r = .ok v t) (hbody : ∀ u, r = .ok v u → Expands document node path v ∧ Remembers document u) :
    Expands document node path v ∧ Remembers document t := by
  cases r with
  | error e u => cases h
  | ok w u =>
    by_cases hs : u.stubs = s.stubs
    · rw [conclude_kept path w hs] at h
      cases h
      obtain ⟨hv, hu⟩ := hbody u rfl
      refine ⟨hv, fun q w next hw hq => ?_⟩
      rw [List.lookup_cons] at hw
      by_cases hpath : q = path
      · subst hpath
        rw [beq_self_eq_true] at hw
        rw [hr] at hq
        cases hw
        cases hq
        exact hv
      · rw [beq_false_of_ne hpath] at hw
        exact hu q w next hw hq
    · rw [conclude_stubbed path w hs] at h
      cases h
      exact hbody u rfl

theorem expandParts_expands {follow : String → Step Node} : ∀ (parts : List (String × Node)) (s t : Expansion) (ys : List Node),
    (∀ q x, (q, x) ∈ parts → ∀ s v t, Remembers document s → expandNode follow x q s = .ok v t →
      Expands document x q v ∧ Remembers document t) →
    Remembers document s → expandParts follow parts s = .ok ys t →
    List.Forall₂ (fun part y => Expands document part.2 part.1 y) parts ys ∧ Remembers document t
  | [], s, t, ys, _, hs, h => by
    cases h
    exact ⟨.nil, hs⟩
  | (q, x) :: rest, s, t, ys, hx, hs, h => by
    rw [expandParts] at h
    obtain ⟨y, u, hy, hrest⟩ := andThen_eq_ok h
    obtain ⟨zs, hzs, rfl⟩ := map_eq_ok hrest
    obtain ⟨hxy, hu⟩ := hx q x List.mem_cons_self s y u hs hy
    obtain ⟨hall, ht⟩ := expandParts_expands rest u t zs (fun q x hm => hx q x (List.mem_cons_of_mem _ hm)) hu hzs
    exact ⟨.cons hxy hall, ht⟩

/-- **Every expansion of a node is one of those that it can come to.** -/
theorem within_expands (hd : document.Proper) (depth : Nat) : ∀ (node : Node) (path : String) (s : Expansion) (v : Node)
    (t : Expansion), Pointer.resolve document path = .ok (some node) → Remembers document s →
    within document depth node path s = .ok v t → Expands document node path v ∧ Remembers document t := by
  -- by the depth for what a reference leads to, by the node for its parts
  induction depth using Nat.strong_induction_on with
  | _ depth jump =>
  refine parts_induction fun node ih path s v t hr hs h => ?_
  have hparts : ∀ q x, (q, x) ∈ (form node path).parts → ∀ s v t, Remembers document s →
      expandNode (follow document depth) x q s = .ok v t → Expands document x q v ∧ Remembers document t :=
    fun q x hm s v t => ih path q x hm q s v t (resolve_part hd hr hm)
  have hbegin : Remembers document (s.begin path) := hs
  rw [within] at h
  cases expandNode_visit (follow document depth) node path s with
  | leaf hf he =>
    rw [he] at h
    cases h
    exact ⟨.leaf hf, hs⟩
  | known w hf hk he =>
    rw [he] at h
    cases h
    exact ⟨hs path v node hk hr, hs⟩
  | whole parts build hf hk he =>
    rw [hf] at hparts
    rw [he] at h
    refine Remembers.conclude hr h fun u hu => ?_
    obtain ⟨ys, hys, rfl⟩ := map_eq_ok hu
    obtain ⟨hall, hu⟩ := expandParts_expands parts _ _ ys hparts hbegin hys
    exact ⟨.whole hf hall, hu⟩
  | remote reference keys siblings hf hk hl he =>
    rw [he] at h
    cases h
  | cut reference keys siblings hf hk hl ha he =>
    rw [he] at h
    refine Remembers.conclude hr h fun u hu => ?_
    cases hu
    exact ⟨.cut hf, hs⟩
  | followed reference keys siblings hf hk hl ha he =>
    rw [hf] at hparts
    rw [he] at h
    refine Remembers.conclude hr h fun u hu => ?_
    obtain ⟨w, u', hw, hbeside⟩ := andThen_eq_ok hu
    cases depth with
    | zero => cases hw
    | succ less =>
      cases hg : target document reference with
      | error e =>
        rw [follow_error hg] at hw
        cases hw
      | ok next =>
        rw [follow_target hg] at hw
        obtain ⟨hnext, hu'⟩ := jump less (Nat.lt_succ_self less) next reference _ w u' (target_eq_ok.1 hg).1 hbegin hw
        cases w with
        | map p found =>
          obtain ⟨ys, hys, rfl⟩ := map_eq_ok hbeside
          obtain ⟨hall, hu⟩ := expandParts_expands siblings _ _ ys hparts hu' hys
          exact ⟨.joined hf hg hnext hall, hu⟩
        | _ =>
          cases hbeside
          exact ⟨.passed hf hg hnext (fun p found heq => by cases heq), hu'⟩

/-- **What a document is expanded to is one of the things that it can come to.** -/
theorem expand_expands (hd : document.Proper) {out : Node} (h : document.expand = .ok out) :
    Expands document document "#" out := by
  have hasked : asked document document = document := by
    cases document <;> rfl
  unfold Node.expand Node.expandAt expandAt at h
  rw [hasked] at h
  cases hw : within document (depthLimit document document) document "#" .empty with
  | error e t =>
    rw [hw] at h
    cases h
  | ok v t =>
    rw [hw] at h
    cases h
    exact (within_expands hd _ document "#" .empty out t (Pointer.resolve_root document) (remembers_empty document) hw).1

end Walk

/-! ## Stamps -/

section Stamps

variable {document v x y : Node} {p q : Option String} {path key r : String} {entries found out : List (String × Node)}
  {ys : List Node}

/-- A mapping that is no reference is stamped with its own place. -/
theorem Expands.of_own (h : Expands document (.map p entries) path v) (hown : reference? entries = none) :
    ∃ ys, v = .map (some path) ((entries.map (·.1)).zip ys) ∧
      List.Forall₂ (fun part y => Expands document part.2 part.1 y) (partsOfEntries path entries) ys := by
  have hform : ∀ {reference keys siblings}, form (.map p entries) path ≠ .reference reference keys siblings := by
    intro reference keys siblings hf
    rw [(form_map_reference hf).1] at hown
    cases hown
  cases h with
  | leaf hf => exact absurd hf (form_map_ne_leaf p entries path)
  | whole hf hparts =>
    obtain ⟨-, rfl, rfl⟩ := form_map_whole hf
    exact ⟨_, rfl, hparts⟩
  | cut hf => exact absurd hf hform
  | passed hf => exact absurd hf hform
  | joined hf => exact absurd hf hform

theorem form_lone : form (.map p [(referenceKey, .str r)]) path = .reference r [] [] := by
  simp [form, reference?, referenceKey, partsOfEntries, Node.text?]

/-- **A reference with nothing beside it is stamped with its pointer**, if it leads to a mapping. -/
theorem Expands.of_lone (h : Expands document (.map p [(referenceKey, .str r)]) path v) :
    v = stub r ∨ ∃ next, target document r = .ok next ∧
      ((∃ q found, Expands document next r (.map q found) ∧ v = merged r found [] []) ∨
        (Expands document next r v ∧ ∀ q found, v ≠ .map q found)) := by
  cases h with
  | leaf hf => exact absurd hf (form_map_ne_leaf _ _ path)
  | whole hf =>
    rw [form_lone] at hf
    cases hf
  | cut hf =>
    rw [form_lone] at hf
    cases hf
    exact .inl rfl
  | passed hf ht hnext hv =>
    rw [form_lone] at hf
    cases hf
    exact .inr ⟨_, ht, .inr ⟨hnext, hv⟩⟩
  | joined hf ht hnext hparts =>
    rw [form_lone] at hf
    cases hf
    cases hparts
    exact .inr ⟨_, ht, .inl ⟨_, _, hnext, rfl⟩⟩

theorem lookup_parts {R : Node → String → Node → Prop} : ∀ {entries : List (String × Node)} {ys : List Node},
    List.Forall₂ (fun part y => R part.2 part.1 y) (partsOfEntries path entries) ys → entries.lookup key = some x →
    ∃ y, ((entries.map (·.1)).zip ys).lookup key = some y ∧ R x (Pointer.child path key) y
  | [], _, _, h => by cases h
  | (k, z) :: rest, w :: ys, h, hx => by
    obtain ⟨hw, hrest⟩ := List.forall₂_cons.1 h
    rw [List.lookup_cons] at hx
    rw [List.map_cons, List.zip_cons_cons, List.lookup_cons]
    by_cases hk : key = k
    · subst hk
      rw [beq_self_eq_true] at hx ⊢
      cases hx
      exact ⟨w, rfl, hw⟩
    · rw [beq_false_of_ne hk] at hx ⊢
      exact lookup_parts hrest hx

theorem nodup_of_resolve (hd : document.Proper) (hr : Pointer.resolve document path = .ok (some (.map p entries))) :
    (entries.map (·.1)).Nodup := by
  simpa [Node.keepsKeys] using Node.everywhere_self _ (everywhere_resolve hd hr)

theorem keys_parts {R : String × Node → Node → Prop} (h : List.Forall₂ R (partsOfEntries path entries) ys) :
    ((entries.map (·.1)).zip ys).map (·.1) = entries.map (·.1) := by
  have hlen := h.length_eq
  rw [partsOfEntries, List.length_map] at hlen
  exact List.map_fst_zip (by rw [List.length_map, hlen])

/-- The keys of an expanded mapping are all different. -/
theorem Expands.keys (hd : document.Proper) (hr : Pointer.resolve document path = .ok (some (.map p entries)))
    (h : Expands document (.map p entries) path (.map q out)) : (out.map (·.1)).Nodup := by
  have hsingle : ∀ r : String, ([(referenceKey, Node.str r)].map (·.1)).Nodup := fun r => by simp
  generalize hv : Node.map q out = v at h
  cases h with
  | leaf hf => exact absurd hf (form_map_ne_leaf p entries path)
  | whole hf hparts =>
    obtain ⟨-, rfl, rfl⟩ := form_map_whole hf
    cases hv
    rw [keys_parts hparts]
    exact nodup_of_resolve hd hr
  | cut hf =>
    cases hv
    exact hsingle _
  | passed hf ht hnext hv' => exact absurd hv.symm (hv' q out)
  | joined hf ht hnext hparts =>
    cases hv
    exact nodup_setEntries _ _ (nodup_setEntries _ _ (hsingle _))

/-- **What is found under a key of an expanded mapping is what the value under that key can come to**, also beside a
reference; only the reference itself is another thing. -/
theorem Expands.entry (hd : document.Proper) (hr : Pointer.resolve document path = .ok (some (.map p entries)))
    (h : Expands document (.map p entries) path (.map q out)) (hkey : key = referenceKey → reference? entries = none)
    (hx : entries.lookup key = some x) (hy : out.lookup key = some y) :
    Pointer.resolve document (Pointer.child path key) = .ok (some x) ∧ Expands document x (Pointer.child path key) y := by
  refine ⟨Pointer.resolve_child document path key p entries x hr hx, ?_⟩
  have hne : ∀ {reference keys siblings}, form (.map p entries) path = .reference reference keys siblings →
      key ≠ referenceKey := by
    intro reference keys siblings hf heq
    have hsome := (form_map_reference hf).1
    rw [hkey heq] at hsome
    cases hsome
  generalize hv : Node.map q out = v at h
  cases h with
  | leaf hf => exact absurd hf (form_map_ne_leaf p entries path)
  | whole hf hparts =>
    obtain ⟨-, rfl, rfl⟩ := form_map_whole hf
    cases hv
    obtain ⟨z, hz, hxz⟩ := lookup_parts hparts hx
    cases hz.symm.trans hy
    exact hxz
  | cut hf =>
    cases hv
    rw [List.lookup_cons, beq_false_of_ne (hne hf)] at hy
    cases hy
  | passed hf ht hnext hv' => exact absurd hv.symm (hv' q out)
  | joined hf ht hnext hparts =>
    have hkey := hne hf
    obtain ⟨-, rfl, rfl⟩ := form_map_reference hf
    cases hv
    -- what stands beside the reference is set last
    have hwanted : ((entries.filter fun e => e.1 != referenceKey).map (·.1)).Nodup :=
      (List.filter_sublist.map _).nodup (nodup_of_resolve hd hr)
    have hbeside : (entries.filter fun e => e.1 != referenceKey).lookup key = some x :=
      lookup_of_mem key x _ hwanted (List.mem_filter.2 ⟨mem_of_lookup key x entries hx, bne_iff_ne.2 hkey⟩)
    obtain ⟨z, hz, hxz⟩ := lookup_parts hparts hbeside
    rw [lookup_setEntries key _ _ (by rw [keys_parts hparts]; exact hwanted), hz, Option.some_or] at hy
    cases hy
    exact hxz

theorem lookup_parts_none {R : String × Node → Node → Prop} (h : List.Forall₂ R (partsOfEntries path entries) ys)
    (hx : entries.lookup key = none) : ((entries.map (·.1)).zip ys).lookup key = none := by
  rw [lookup_eq_none_iff_not_mem] at hx ⊢
  rwa [keys_parts h]

/-- **A reference to a mapping that has no mark of its own comes to a mapping with the mark of the reference**, stamped with
its pointer. -/
theorem Expands.of_reference (hd : document.Proper) (h : Expands document (.map p [(referenceKey, .str r)]) path v)
    (ht : target document r = .ok (.map q entries)) (hown : entries.lookup referenceKey = none) :
    ∃ out, v = .map (some r) out ∧ out.lookup referenceKey = some (.str r) := by
  have hreference : reference? entries = none := by
    rw [reference?, hown]
    rfl
  rcases h.of_lone with rfl | ⟨next, hnext, ⟨q', found, hfound, rfl⟩ | ⟨hv, hmap⟩⟩
  · exact ⟨_, rfl, rfl⟩
  · cases ht.symm.trans hnext
    obtain ⟨ys, heq, hparts⟩ := hfound.of_own hreference
    cases heq
    have hn := nodup_of_resolve hd (target_eq_ok.1 ht).1
    refine ⟨_, rfl, ?_⟩
    have hmark := lookup_marked r (by rw [keys_parts hparts]; exact hn) referenceKey
    rwa [lookup_parts_none hparts hown, if_pos rfl, Option.none_or] at hmark
  · cases ht.symm.trans hnext
    obtain ⟨ys, rfl, -⟩ := hv.of_own hreference
    exact absurd rfl (hmap _ _)

end Stamps
end Expansion
end TypedClient
