import TypedClient.Proofs.Expansion.Tracing
import TypedClient.Proofs.Expansion.Uncut
/-!
# Marks — what reads as a reference

A schema is read as a reference if it is a mark alone.  A stub is one, and so is a reference with nothing beside it to what is one.
A mapping of another origin can be one too: a reference to an empty mapping, which adds nothing to the mark, or a mapping with nothing
but a key `$ref` under which something leads to text.  Where the document has neither, the schemas that are read as references are those
of the stubs (`reference_iff_cut`).
-/
namespace TypedClient
namespace Expansion

open Relation (ReflTransGen)
open Schema (isScalar loneReference?)

/-! ## What is inside a traced node -/

inductive Traced.Below : Traced → Traced → Prop where
  | item {path : Option String} {items : List Traced} {x : Traced} (h : x ∈ items) : Below x (.list path items)
  | value {origin : Origin} {path : Option String} {entries : List (String × Traced)} {key : String} {x : Traced}
    (h : (key, x) ∈ entries) : Below x (.map origin path entries)

namespace Traced

theorem exists_below {m : Traced} {n : Node} (h : Expansion.Below n m.erase) : ∃ d, Below d m ∧ d.erase = n := by
  cases m with
  | scalar x hx => cases h <;> cases hx
  | list path items =>
    rw [erase_list] at h
    cases h with
    | item h =>
      obtain ⟨d, hd, rfl⟩ := List.mem_map.1 h
      exact ⟨d, .item hd, rfl⟩
  | map origin path entries =>
    rw [erase_map] at h
    cases h with
    | value h =>
      obtain ⟨⟨key, d⟩, hd, heq⟩ := List.mem_map.1 h
      obtain ⟨-, rfl⟩ := Prod.mk.inj heq
      exact ⟨d, .value hd, rfl⟩

/-- **Whatever stands in a node stands in the traced one**, with its origin. -/
theorem exists_inside {m : Traced} {n : Node} (h : ReflTransGen Expansion.Below n m.erase) :
    ∃ d, ReflTransGen Below d m ∧ d.erase = n := by
  generalize hv : m.erase = v at h
  induction h using ReflTransGen.head_induction_on with
  | refl => exact ⟨m, .refl, hv⟩
  | head hn _ ih =>
    obtain ⟨d, hd, rfl⟩ := ih
    obtain ⟨e, he, rfl⟩ := exists_below hn
    exact ⟨e, .head he hd, rfl⟩

theorem inside_cases {m d : Traced} (h : ReflTransGen Below d m) : d = m ∨ ∃ x, Below x m ∧ ReflTransGen Below d x := by
  rcases ReflTransGen.cases_tail h with rfl | ⟨x, hdx, hx⟩
  · exact .inl rfl
  · exact .inr ⟨x, hx, hdx⟩

end Traced

/-- Whether what was made so is a stub, or a reference with nothing beside it to what is one. -/
def Origin.isCut : Origin → Bool
  | .copied => false
  | .cut => true
  | .joined target alone => alone && target.isCut

/-- **Whether a mapping was made as a stub**, or from a reference with nothing beside it and what was made as one. -/
def Traced.isCut (m : Traced) : Bool := m.origin?.any Origin.isCut

/-! ## Marks -/

section
variable {document node next v x : Node} {path reference text : String} {p : Option String} {entries found : List (String × Node)}

theorem Expands.settle_eq (hd : document.Proper) (hr : Pointer.resolve document path = .ok (some node))
    (h : Expands document node path (.str text)) : settle document node = some (.str text) := by
  refine h.place_induction hd (P := fun node _ v => v = .str text → settle document node = some (.str text))
    ?leaf ?whole ?cut ?passed ?joined hr rfl
  case leaf =>
    rintro node path - rfl
    exact settle_of_none rfl
  case whole =>
    intro node path parts build ys _ hf _ _ heq
    rcases whole_cases hf with ⟨q, -, rfl⟩ | ⟨q, entries, -, -, -, rfl⟩ <;> cases heq
  case cut =>
    intro node path reference keys siblings _ heq
    cases heq
  case passed =>
    intro node path reference keys siblings next v hr hf ht ih _ heq
    exact settle_of_target (refersTo_of_form hf) (references_resolve hr (mem_references_of_form hf)) ht (ih heq)
  case joined =>
    intro node path reference keys siblings next q found ys _ _ _ _ _ _ heq
    cases heq

theorem setEntries_ne_nil : ∀ {changes entries : List (String × Node)}, entries ≠ [] → setEntries entries changes ≠ []
  | [], _, h => h
  | (key, y) :: rest, entries, _ => by
    have hne : setEntry entries key y ≠ [] := by
      cases entries with
      | nil => simp [setEntry]
      | cons e es =>
        rw [setEntry]
        split <;> simp
    rw [setEntries, List.foldl_cons]
    exact setEntries_ne_nil hne

theorem Expands.eq_empty (h : Expands document node path (.map p [])) : ∃ q, node = .map q [] := by
  generalize hv : Node.map p [] = v at h
  cases h with
  | leaf => exact ⟨p, hv.symm⟩
  | whole hf hparts =>
    rcases whole_cases hf with ⟨q, -, rfl⟩ | ⟨q, entries, rfl, -, hvalues, rfl⟩
    · cases hv
    · have hlen := hparts.length_eq
      have hlen' := congrArg List.length hvalues
      rw [List.length_map, List.length_map] at hlen'
      have hzip := congrArg List.length (Node.map.inj hv).2
      rw [List.length_zip, List.length_map, ← hlen, hlen', Nat.min_self, List.length_nil] at hzip
      exact ⟨q, by rw [List.length_eq_zero_iff.1 hzip.symm]⟩
  | cut => cases hv
  | passed hf ht hnext hne => exact absurd hv.symm (hne p [])
  | joined =>
    exact absurd (Node.map.inj hv).2.symm (setEntries_ne_nil (setEntries_ne_nil (List.cons_ne_nil _ _)))

theorem mem_keys_setEntries {k : String} : ∀ {changes entries : List (String × Node)},
    k ∈ changes.map (·.1) ∨ k ∈ entries.map (·.1) → k ∈ (setEntries entries changes).map (·.1)
  | [], _, h => h.elim (fun h => absurd h List.not_mem_nil) id
  | (key, y) :: rest, entries, h => by
    rw [setEntries, List.foldl_cons]
    refine mem_keys_setEntries ?_
    rw [keys_setEntry]
    rcases h with h | h
    · rcases List.mem_cons.1 h with rfl | h
      · refine .inr ?_
        split
        · assumption
        · exact List.mem_append_right _ List.mem_cons_self
      · exact .inl h
    · refine .inr ?_
      split
      · exact h
      · exact List.mem_append_left _ h

theorem eq_nil_or_singleton {key : String} (hn : (entries.map (·.1)).Nodup) (hall : ∀ e ∈ entries, e.1 = key) :
    entries = [] ∨ ∃ x, entries = [(key, x)] := by
  match entries, hn, hall with
  | [], _, _ => exact .inl rfl
  | [(k, x)], _, hall => exact .inr ⟨x, by rw [show k = key from hall (k, x) List.mem_cons_self]⟩
  | (k, x) :: (l, y) :: rest, hn, hall =>
    have hkl : k = l :=
      (hall (k, x) List.mem_cons_self).trans (hall (l, y) (List.mem_cons_of_mem _ List.mem_cons_self)).symm
    simp [hkl] at hn

/-- **A mapping made from a reference is a mark only if nothing stands beside the reference** and what was found is a mark or
nothing. -/
theorem of_isMark_merged {keys : List String} {ys : List Node} (hn : (found.map (·.1)).Nodup) (hkeys : referenceKey ∉ keys)
    (hlen : keys.length = ys.length) (h : isMark (merged reference found keys ys) = true) :
    keys = [] ∧ (found = [] ∨ isMark (.map p found) = true) := by
  obtain ⟨q, text, heq⟩ := (isMark_iff _).1 h
  have hentries : setEntries (setEntries [(referenceKey, .str reference)] found) (keys.zip ys) = [(referenceKey, .str text)] :=
    (Node.map.inj heq).2
  have hall : ∀ k, k ∈ (keys.zip ys).map (·.1) ∨ k ∈ (setEntries [(referenceKey, Node.str reference)] found).map (·.1) →
      k = referenceKey := by
    intro k hk
    have hmem := mem_keys_setEntries hk
    rw [hentries] at hmem
    exact List.mem_singleton.1 hmem
  -- a key beside the reference would be a key of what was made
  have hnil : keys = [] := by
    rw [List.map_fst_zip (Nat.le_of_eq hlen)] at hall
    rw [List.eq_nil_iff_forall_not_mem]
    exact fun k hk => hkeys (hall k (.inl hk) ▸ hk)
  refine ⟨hnil, ?_⟩
  subst hnil
  have hfound : ∀ e ∈ found, e.1 = referenceKey := fun e he => hall e.1 (.inr (mem_keys_setEntries (.inl (List.mem_map_of_mem he))))
  rcases eq_nil_or_singleton hn hfound with rfl | ⟨y, rfl⟩
  · exact .inl rfl
  · have hy : y = .str text := (Prod.mk.inj (List.cons.inj hentries).1).2
    exact .inr ((isMark_iff _).2 ⟨p, text, by rw [hy]⟩)

/-- Whether nothing that a mapping comes to is taken for a stub: it is not a reference, with nothing beside it, to an empty mapping, and
not a mapping of nothing but a key `$ref` under which something else leads to text. -/
def unmistakable (document : Node) : Node → Bool
  | .map _ [(key, .str reference)] =>
    key != referenceKey ||
      match target document reference with
      | .ok (.map _ []) => false
      | _ => true
  | .map _ [(key, x)] => key != referenceKey || !((settle document x).bind Node.text?).isSome
  | _ => true

theorem target_ne_empty {q : Option String} (hu : unmistakable document (.map p [(referenceKey, .str reference)]) = true)
    (ht : target document reference = .ok (.map q [])) : False := by
  simp [unmistakable, ht] at hu

theorem settle_ne_text (hu : unmistakable document (.map p [(referenceKey, x)]) = true) (hx : x.text? = none) (text : String) :
    settle document x ≠ some (.str text) := by
  intro hs
  cases x <;> simp [unmistakable, hs, Node.text?] at hu hx

/-- **A mapping that is no reference comes to no mark**, if it cannot be mistaken. -/
theorem Expands.isMark_own (hd : document.Proper) (hr : Pointer.resolve document path = .ok (some (.map p entries)))
    (hu : unmistakable document (.map p entries) = true) (hown : reference? entries = none)
    (h : Expands document (.map p entries) path v) : isMark v = false := by
  rw [← Bool.not_eq_true]
  intro hmark
  obtain ⟨q, text, rfl⟩ := (isMark_iff v).1 hmark
  obtain ⟨ys, heq, hparts⟩ := h.of_own hown
  have hzip := (Node.map.inj heq).2
  match entries, ys, hparts, hzip with
  | [(key, x)], [y], .cons hx .nil, hzip =>
    obtain ⟨rfl, rfl⟩ := Prod.mk.inj (List.cons.inj hzip).1
    have htext : x.text? = none := by simpa [reference?] using hown
    have hplace := Pointer.resolve_child document path referenceKey p [(referenceKey, x)] x hr (by simp)
    exact settle_ne_text hu htext text (hx.settle_eq hd hplace)
  | (_, _) :: (_, _) :: _, _ :: _ :: _, .cons _ _, hzip => simp at hzip

theorem entries_of_alone {siblings : List (String × Node)} (hn : (entries.map (·.1)).Nodup)
    (hf : form (.map p entries) path = .reference reference [] siblings) : entries = [(referenceKey, .str reference)] := by
  obtain ⟨hr, hkeys, -⟩ := form_map_reference hf
  have hall : ∀ e ∈ entries, e.1 = referenceKey := by
    intro e he
    by_contra hne
    have hmem : e.1 ∈ (entries.filter fun e => e.1 != referenceKey).map (·.1) :=
      List.mem_map_of_mem (List.mem_filter.2 ⟨he, bne_iff_ne.2 hne⟩)
    rw [← hkeys] at hmem
    exact List.not_mem_nil hmem
  rcases eq_nil_or_singleton hn hall with rfl | ⟨x, rfl⟩
  · cases hr
  · have hx : x.text? = some reference := by simpa [reference?] using hr
    cases x with
    | str text =>
      cases hx
      rfl
    | _ => cases hx

end

/-! ## Traced marks -/

/-- Whether no reference of a document leads to a reference. -/
def Direct (document : Node) : Prop := ∀ r ∈ references document, ∀ next, target document r = .ok next → refersTo next = none

/-- **Whether the marks in a traced node are those that were cut.** -/
structure TrueMarks (document : Node) (m : Traced) : Prop where
  marks : ∀ d, ReflTransGen Traced.Below d m → (isMark d.erase = true ↔ d.isCut = true)
  direct : Direct document → ∀ d, ReflTransGen Traced.Below d m → d.isCut = true → d.origin? = some .cut

/-- What is known of what a node was traced to. -/
structure Marked (document node : Node) (m : Traced) : Prop where
  copied : refersTo node = none → ∀ origin, m.origin? = some origin → origin = .copied
  inside : TrueMarks document m

def RemembersMarked (document : Node) (s : Tracing) : Prop :=
  ∀ path m node, s.finished.lookup path = some m → Pointer.resolve document path = .ok (some node) → Marked document node m

section
variable {document node : Node} {path : String} {s t : Tracing} {m : Traced}

theorem TrueMarks.of_parts (hroot : isMark m.erase = true ↔ m.isCut = true)
    (hdirect : Direct document → m.isCut = true → m.origin? = some .cut)
    (hparts : ∀ y, Traced.Below y m → TrueMarks document y) : TrueMarks document m := by
  refine ⟨fun d hd => ?_, fun hdir d hd hcut => ?_⟩
  · rcases Traced.inside_cases hd with rfl | ⟨y, hy, hdy⟩
    · exact hroot
    · exact (hparts y hy).marks d hdy
  · rcases Traced.inside_cases hd with rfl | ⟨y, hy, hdy⟩
    · exact hdirect hdir hcut
    · exact (hparts y hy).direct hdir d hdy hcut

theorem TrueMarks.below {y : Traced} (h : TrueMarks document m) (hy : Traced.Below y m) : TrueMarks document y :=
  ⟨fun d hd => h.marks d (hd.tail hy), fun hdir d hd => h.direct hdir d (hd.tail hy)⟩

theorem trueMarks_scalar (document : Node) (hs : isScalar node = true) : TrueMarks document (.scalar node hs) := by
  have hmark : isMark node = false := by
    cases node <;> first | rfl | cases hs
  refine .of_parts ?_ (fun _ h => by cases h) fun y hy => by cases hy
  rw [Traced.erase, hmark]
  rfl

theorem copied_of_reference {reference : String} {keys : List String} {siblings : List (String × Node)}
    (hf : form node path = .reference reference keys siblings) (hown : refersTo node = none) :
    ∀ origin, m.origin? = some origin → origin = .copied := by
  rw [refersTo_of_form hf] at hown
  cases hown

theorem trueMarks_list (path : Option String) {ys : List Traced} (h : ∀ y ∈ ys, TrueMarks document y) :
    TrueMarks document (.list path ys) := by
  refine .of_parts ⟨(fun h => nomatch h), (fun h => nomatch h)⟩ (fun _ h => by cases h) fun y hy => ?_
  cases hy with
  | item hy => exact h y hy

theorem trueMarks_copied {path : Option String} {keys : List String} {ys : List Traced}
    (hmark : isMark (Traced.map .copied path (keys.zip ys)).erase = false) (h : ∀ y ∈ ys, TrueMarks document y) :
    TrueMarks document (.map .copied path (keys.zip ys)) := by
  refine .of_parts (by rw [hmark]; rfl) (fun _ h => by cases h) fun y hy => ?_
  cases hy with
  | value hy => exact h y (List.of_mem_zip hy).2

theorem trueMarks_stub (document : Node) (reference : String) : TrueMarks document (.stub reference) := by
  refine .of_parts ⟨fun _ => rfl, fun _ => rfl⟩ (fun _ _ => rfl) fun y hy => ?_
  cases hy with
  | value hy =>
    obtain ⟨-, rfl⟩ := Prod.mk.inj (List.mem_singleton.1 hy)
    exact trueMarks_scalar document rfl

theorem length_of_expandParts {follow : String → Step Node} : ∀ (parts : List (String × Node)) (s : Expansion)
    (ys : List Node) (t : Expansion), expandParts follow parts s = .ok ys t → parts.length = ys.length
  | [], _, _, _, h => by
    cases h
    rfl
  | (q, x) :: rest, s, ys, t, h => by
    rw [expandParts] at h
    obtain ⟨y, u, -, hrest⟩ := andThen_eq_ok h
    obtain ⟨zs, hzs, rfl⟩ := map_eq_ok hrest
    exact congrArg (· + 1) (length_of_expandParts rest u zs t hzs)

theorem RunsAll.length_eq {parts : List (String × Node)} {s t : Tracing} {ys : List Traced}
    (h : RunsAll document parts s ys t) : parts.length = ys.length := by
  obtain ⟨depth, hd⟩ := h.within
  rw [length_of_expandParts parts _ _ _ hd, List.length_map]

theorem Runs.expands (hd : document.Proper) (hr : Pointer.resolve document path = .ok (some node))
    (hs : Remembers document s.erase) (h : Runs document node path s m t) :
    Expands document node path m.erase ∧ Remembers document t.erase := by
  obtain ⟨depth, hwithin⟩ := h.within
  exact within_expands hd depth node path s.erase m.erase t.erase hr hs hwithin

theorem Marked.conclude (hr : Pointer.resolve document path = .ok (some node)) (ht : RemembersMarked document t)
    (hm : Marked document node m) : Marked document node m ∧ RemembersMarked document (.conclude path s m t) := by
  refine ⟨hm, fun q w next hw hq => ?_⟩
  rw [Tracing.conclude] at hw
  by_cases hstubs : t.stubs = s.stubs
  · simp only [if_pos hstubs, List.lookup_cons] at hw
    by_cases hpath : q = path
    · subst hpath
      rw [beq_self_eq_true] at hw
      cases hw
      rw [hr] at hq
      cases hq
      exact hm
    · rw [beq_false_of_ne hpath] at hw
      exact ht q w next hw hq
  · simp only [if_neg hstubs] at hw
    exact ht q w next hw hq

theorem Traced.mem_setKey {e : String × Traced} {key : String} {value : Traced} : ∀ {entries : List (String × Traced)},
    e ∈ setKey entries key value → e = (key, value) ∨ e ∈ entries
  | [], h => .inl (List.mem_singleton.1 h)
  | (k, x) :: rest, h => by
    rw [setKey] at h
    split at h
    · rcases List.mem_cons.1 h with h | h
      · exact .inl h
      · exact .inr (List.mem_cons_of_mem _ h)
    · rcases List.mem_cons.1 h with h | h
      · exact .inr (h ▸ List.mem_cons_self)
      · exact (mem_setKey h).imp_right (List.mem_cons_of_mem _)

theorem Traced.mem_setKeys {e : String × Traced} : ∀ {changes entries : List (String × Traced)}, e ∈ setKeys entries changes →
    e ∈ changes ∨ e ∈ entries
  | [], _, h => .inr h
  | (key, value) :: rest, entries, h => by
    rw [setKeys, List.foldl_cons] at h
    rcases mem_setKeys h with h | h
    · exact .inl (List.mem_cons_of_mem _ h)
    · exact (mem_setKey h).imp_left fun heq => by rw [heq]; exact List.mem_cons_self

theorem mark_not_mem_keys {reference : String} {keys : List String} {siblings : List (String × Node)}
    (hf : form node path = .reference reference keys siblings) : referenceKey ∉ keys := by
  cases node with
  | map p entries =>
    obtain ⟨-, rfl, -⟩ := form_map_reference hf
    simp
  | _ => cases hf

theorem length_keys {reference : String} {keys : List String} {siblings : List (String × Node)}
    (hf : form node path = .reference reference keys siblings) : keys.length = siblings.length := by
  cases node with
  | map p entries =>
    obtain ⟨-, rfl, rfl⟩ := form_map_reference hf
    simp [partsOfEntries]
  | _ => cases hf

/-- **A reference that is joined with what its target came to is a mark just if it has nothing beside it and its target came to a stub**,
or to a reference of that kind. -/
theorem trueMarks_merged {reference : String} {keys : List String} {siblings : List (String × Node)} {next : Node}
    {origin : Origin} {p : Option String} {found : List (String × Traced)} {ys : List Traced} (hd : document.Proper)
    (hu : document.everywhere (unmistakable document) = true) (hr : Pointer.resolve document path = .ok (some node))
    (hf : form node path = .reference reference keys siblings) (ht : target document reference = .ok next)
    (hnext : Expands document next reference (Traced.map origin p found).erase) (hm : Marked document next (.map origin p found))
    (hlen : keys.length = ys.length) (hys : ∀ y ∈ ys, TrueMarks document y) :
    TrueMarks document (.merged reference origin found keys ys) := by
  rw [Traced.erase_map] at hnext
  have hn := hnext.nodup hd (target_eq_ok.1 ht).1
  have hmarks := hm.inside.marks _ .refl
  rw [Traced.erase_map] at hmarks
  have hcut : (Traced.map origin p found).isCut = origin.isCut := rfl
  have hcut' : (Traced.merged reference origin found keys ys).isCut = (keys.isEmpty && origin.isCut) := rfl
  refine .of_parts ?_ ?_ ?_
  · rw [Traced.erase_merged, hcut', Bool.and_eq_true, List.isEmpty_iff, ← hcut, ← hmarks]
    constructor
    · intro hmark
      obtain ⟨rfl, hfound⟩ := of_isMark_merged (p := p) hn (mark_not_mem_keys hf) (by rw [List.length_map, hlen]) hmark
      refine ⟨rfl, hfound.resolve_left fun hempty => ?_⟩
      rw [hempty] at hnext
      obtain ⟨q, rfl⟩ := hnext.eq_empty
      have hhere := Node.everywhere_self node (everywhere_resolve hu hr)
      cases node with
      | map p' entries =>
        rw [entries_of_alone (nodup_of_resolve hd hr) hf] at hhere
        exact target_ne_empty hhere ht
      | _ => cases hf
    · rintro ⟨rfl, hmark⟩
      exact isMark_merged hmark
  · intro hdir hcut
    rw [hcut', hm.copied (hdir reference (references_resolve hr (mem_references_of_form hf)) next ht) origin rfl] at hcut
    rw [Origin.isCut, Bool.and_false] at hcut
    cases hcut
  · intro y hy
    cases hy with
    | value hy =>
      rcases Traced.mem_setKeys hy with h | h
      · exact hys y (List.of_mem_zip h).2
      · rcases Traced.mem_setKeys h with h | h
        · exact hm.inside.below (.value h)
        · obtain ⟨-, rfl⟩ := Prod.mk.inj (List.mem_singleton.1 h)
          exact trueMarks_scalar document rfl

end

mutual
/-- **The marks in what a node is traced to are those that were cut**, if nothing in the document can be mistaken. -/
theorem Runs.marked {document node : Node} {path : String} {s t : Tracing} {m : Traced} (hd : document.Proper)
    (hu : document.everywhere (unmistakable document) = true) (hr : Pointer.resolve document path = .ok (some node))
    (hs : Remembers document s.erase) (hsm : RemembersMarked document s) : Runs document node path s m t →
    Marked document node m ∧ RemembersMarked document t
  | .scalar hscalar => ⟨⟨(fun _ _ h => nomatch h), trueMarks_scalar document hscalar⟩, hsm⟩
  | .known _ hk => ⟨hsm path m node hk hr, hsm⟩
  | .items hk hitems => by
    obtain ⟨hys, ht⟩ := hitems.marked (s := s.begin path) hd hu (fun part h => resolve_part hd hr (x := part.2) h) hs hsm
    exact Marked.conclude hr ht ⟨(fun _ _ h => nomatch h), trueMarks_list (some path) hys⟩
  | .entries hown hk hentries => by
    have hparts : ∀ part ∈ partsOfEntries path _, Pointer.resolve document part.1 = .ok (some part.2) := fun part h =>
      resolve_part hd hr (x := part.2) (by rw [form_map_own hown]; exact h)
    obtain ⟨hys, ht⟩ := hentries.marked (s := s.begin path) hd hu hparts hs hsm
    have hexpands := (Runs.entries hown hk hentries).expands hd hr hs
    have hmark := hexpands.1.isMark_own hd hr (Node.everywhere_self _ (everywhere_resolve hu hr)) hown
    exact Marked.conclude hr ht ⟨fun _ _ h => (Option.some.inj h).symm, trueMarks_copied hmark hys⟩
  | .cut hf hk hl ha => by
    exact Marked.conclude hr hsm ⟨copied_of_reference hf, trueMarks_stub document _⟩
  | .passed hf hk hl ha ht hnext hnone => by
    obtain ⟨hnext, ht'⟩ := hnext.marked (s := s.begin path) hd hu (target_eq_ok.1 ht).1 hs hsm
    exact Marked.conclude hr ht' ⟨copied_of_reference hf, hnext.inside⟩
  | .joined hf hk hl ha ht hnext hbeside => by
    have hplace := (target_eq_ok.1 ht).1
    obtain ⟨hexpands, hremembers⟩ := hnext.expands (s := s.begin path) hd hplace hs
    obtain ⟨hfound, hu'⟩ := hnext.marked (s := s.begin path) hd hu hplace hs hsm
    obtain ⟨hys, ht'⟩ := hbeside.marked hd hu (fun part h => resolve_part hd hr (x := part.2) (by rw [hf]; exact h))
      hremembers hu'
    have hlen := (length_keys hf).trans hbeside.length_eq
    exact Marked.conclude hr ht' ⟨copied_of_reference hf, trueMarks_merged hd hu hr hf ht hexpands hfound hlen hys⟩

theorem RunsAll.marked {document : Node} {parts : List (String × Node)} {s t : Tracing} {ys : List Traced} (hd : document.Proper)
    (hu : document.everywhere (unmistakable document) = true)
    (hr : ∀ part ∈ parts, Pointer.resolve document part.1 = .ok (some part.2))
    (hs : Remembers document s.erase) (hsm : RemembersMarked document s) : RunsAll document parts s ys t →
    (∀ y ∈ ys, TrueMarks document y) ∧ RemembersMarked document t
  | .nil => ⟨fun _ h => absurd h List.not_mem_nil, hsm⟩
  | .cons hx hrest => by
    have hr' := hr _ List.mem_cons_self
    obtain ⟨hm, hu'⟩ := hx.marked hd hu hr' hs hsm
    obtain ⟨hys, ht⟩ := hrest.marked hd hu (fun part h => hr part (List.mem_cons_of_mem _ h)) (hx.expands hd hr' hs).2 hu'
    refine ⟨fun y hy => ?_, ht⟩
    rcases List.mem_cons.1 hy with rfl | hy
    · exact hm.inside
    · exact hys y hy
end

end Expansion
end TypedClient
