import TypedClient.Proofs.Expansion.Canonical
/-!
# Tracing — where the mappings of an expansion come from

A stub and a reference to an empty mapping look alike.  A **traced** expansion says of every mapping how it was made (`Origin`), and it
remembers what it remembers together with that.  Tracing changes nothing: what is expanded can be traced, and what is traced is
expanded, its origins erased (`within_eq_ok_iff`).
-/
namespace TypedClient
namespace Expansion

open Schema (isScalar)

/-- **How a mapping of an expanded document was made**: entry by entry from a mapping that is no reference; as a stub, in place of a
reference to what was being expanded; or from a reference and the mapping that its target came to, with nothing else beside the
reference if it is `alone`. -/
inductive Origin where
  | copied
  | cut
  | joined (target : Origin) (alone : Bool)
  deriving DecidableEq

/-- An expanded node with the origins of its mappings. -/
inductive Traced where
  | scalar (node : Node) (h : isScalar node = true)
  | list (path : Option String) (items : List Traced)
  | map (origin : Origin) (path : Option String) (entries : List (String × Traced))

namespace Traced

mutual
def erase : Traced → Node
  | .scalar node _ => node
  | .list path items => .list path (eraseItems items)
  | .map _ path entries => .map path (eraseEntries entries)

def eraseItems : List Traced → List Node
  | [] => []
  | x :: xs => x.erase :: eraseItems xs

def eraseEntries : List (String × Traced) → List (String × Node)
  | [] => []
  | (key, x) :: rest => (key, x.erase) :: eraseEntries rest
end

theorem eraseItems_eq : ∀ items : List Traced, eraseItems items = items.map erase
  | [] => rfl
  | x :: xs => by rw [eraseItems, eraseItems_eq xs, List.map_cons]

theorem eraseEntries_eq : ∀ entries : List (String × Traced), eraseEntries entries = entries.map (Prod.map id erase)
  | [] => rfl
  | (key, x) :: rest => by
    rw [eraseEntries, eraseEntries_eq rest]
    rfl

@[simp] theorem erase_list (path : Option String) (items : List Traced) :
    (Traced.list path items).erase = .list path (items.map erase) := by
  rw [erase, eraseItems_eq]

@[simp] theorem erase_map (origin : Origin) (path : Option String) (entries : List (String × Traced)) :
    (Traced.map origin path entries).erase = .map path (entries.map (Prod.map id erase)) := by
  rw [erase, eraseEntries_eq]

def origin? : Traced → Option Origin
  | .map origin .. => some origin
  | _ => none

theorem exists_of_origin? {m : Traced} {origin : Origin} (h : m.origin? = some origin) : ∃ p found, m = .map origin p found := by
  cases m with
  | map origin' p found =>
    cases h
    exact ⟨p, found, rfl⟩
  | _ => cases h

theorem erase_ne_map {m : Traced} (h : m.origin? = none) (p : Option String) (found : List (String × Node)) :
    m.erase ≠ .map p found := by
  cases m with
  | scalar x hx =>
    rintro rfl
    cases hx
  | list q items => simp
  | map origin q entries => cases h

def setKey (entries : List (String × Traced)) (key : String) (value : Traced) : List (String × Traced) :=
  match entries with
  | [] => [(key, value)]
  | (k, v) :: rest => if k = key then (key, value) :: rest else (k, v) :: setKey rest key value

def setKeys (entries changes : List (String × Traced)) : List (String × Traced) :=
  changes.foldl (fun acc (key, value) => setKey acc key value) entries

def stub (reference : String) : Traced :=
  .map .cut (some reference) [(referenceKey, .scalar (.str reference) rfl)]

/-- A mapping made of a reference: its mark, what was found, and what stands beside it. -/
def merged (reference : String) (target : Origin) (found : List (String × Traced)) (keys : List String) (ys : List Traced) : Traced :=
  .map (.joined target keys.isEmpty) (some reference)
    (setKeys (setKeys [(referenceKey, .scalar (.str reference) rfl)] found) (keys.zip ys))

theorem map_setKey (key : String) (value : Traced) : ∀ entries : List (String × Traced),
    (setKey entries key value).map (Prod.map id erase) = setEntry (entries.map (Prod.map id erase)) key value.erase
  | [] => rfl
  | (k, v) :: rest => by
    rw [setKey, List.map_cons, Prod.map_apply, setEntry]
    by_cases hk : k = key
    · rw [if_pos hk, id, if_pos hk]
      rfl
    · rw [if_neg hk, id, if_neg hk, List.map_cons, map_setKey key value rest]
      rfl

theorem map_setKeys : ∀ changes entries : List (String × Traced), (setKeys entries changes).map (Prod.map id erase) =
    setEntries (entries.map (Prod.map id erase)) (changes.map (Prod.map id erase))
  | [], _ => rfl
  | (key, value) :: rest, entries => by
    have ih := map_setKeys rest (setKey entries key value)
    rw [setKeys] at ih ⊢
    rw [List.foldl_cons, ih, map_setKey]
    rfl

theorem erase_merged (reference : String) (target : Origin) (found : List (String × Traced)) (keys : List String)
    (ys : List Traced) : (merged reference target found keys ys).erase =
      Expansion.merged reference (found.map (Prod.map id erase)) keys (ys.map erase) := by
  rw [merged, erase_map, map_setKeys, map_setKeys, Expansion.merged, List.zip_map_right]
  rfl

end Traced

/-- What a traced expansion keeps: as an expansion does, but with origins. -/
structure Tracing where
  active : List String
  finished : List (String × Traced)
  stubs : Nat

namespace Tracing

def empty : Tracing := ⟨[], [], 0⟩

def erase (s : Tracing) : Expansion := ⟨s.active, s.finished.map (Prod.map id Traced.erase), s.stubs⟩

def begin (path : String) (s : Tracing) : Tracing :=
  { s with active := (s.erase.begin path).active }

/-- What is left when the expansion of a place that began in state `s` ends with `m`: the place is no longer active, and its expansion
is remembered if it made no stub. -/
def conclude (path : String) (s : Tracing) (m : Traced) (t : Tracing) : Tracing where
  active := (t.erase.finish path).active
  finished := if t.stubs = s.stubs then (path, m) :: t.finished else t.finished
  stubs := t.stubs

theorem erase_conclude (path : String) (s : Tracing) (m : Traced) (t : Tracing) :
    Expansion.conclude path s.erase (.ok m.erase t.erase) = .ok m.erase (conclude path s m t).erase := by
  by_cases h : t.stubs = s.stubs
  · rw [conclude_kept path m.erase (show t.erase.stubs = s.erase.stubs from h)]
    simp [conclude, erase, Expansion.finish, h]
  · rw [conclude_stubbed path m.erase (show t.erase.stubs ≠ s.erase.stubs from h)]
    simp [conclude, erase, Expansion.finish, h]

theorem lookup_map_erase (path : String) : ∀ finished : List (String × Traced),
    (finished.map (Prod.map id Traced.erase)).lookup path = (finished.lookup path).map Traced.erase
  | [] => rfl
  | (q, m) :: rest => by
    rw [List.map_cons, Prod.map_apply, List.lookup_cons, List.lookup_cons, id]
    cases path == q with
    | true => rfl
    | false => exact lookup_map_erase path rest

theorem lookup_erase (path : String) (s : Tracing) : s.erase.finished.lookup path = (s.finished.lookup path).map Traced.erase :=
  lookup_map_erase path s.finished

theorem lookup_erase_none {path : String} {s : Tracing} : s.erase.finished.lookup path = none ↔ s.finished.lookup path = none := by
  rw [lookup_erase, Option.map_eq_none_iff]

end Tracing

mutual
/-- **What a node comes to in a traced expansion**, and what is kept then. -/
inductive Runs (document : Node) : Node → String → Tracing → Traced → Tracing → Prop
  | scalar {node path s} (hs : isScalar node = true) : Runs document node path s (.scalar node hs) s
  | known {node path s m} (hs : isScalar node = false) (hk : s.finished.lookup path = some m) : Runs document node path s m s
  | items {p items path s ys t} (hk : s.finished.lookup path = none)
      (hitems : RunsAll document (partsOfItems path 0 items) (s.begin path) ys t) :
      Runs document (.list p items) path s (.list (some path) ys) (.conclude path s (.list (some path) ys) t)
  | entries {p entries path s ys t} (hr : reference? entries = none) (hk : s.finished.lookup path = none)
      (hentries : RunsAll document (partsOfEntries path entries) (s.begin path) ys t) :
      Runs document (.map p entries) path s (.map .copied (some path) ((entries.map (·.1)).zip ys))
        (.conclude path s (.map .copied (some path) ((entries.map (·.1)).zip ys)) t)
  | cut {node path s reference keys siblings} (hf : form node path = .reference reference keys siblings)
      (hk : s.finished.lookup path = none) (hl : Text.startsWith reference "#" = true)
      (ha : reference ∈ (s.begin path).active) :
      Runs document node path s (.stub reference)
        (.conclude path s (.stub reference) { s.begin path with stubs := s.stubs + 1 })
  | passed {node path s reference keys siblings next m t} (hf : form node path = .reference reference keys siblings)
      (hk : s.finished.lookup path = none) (hl : Text.startsWith reference "#" = true)
      (ha : reference ∉ (s.begin path).active) (ht : target document reference = .ok next)
      (hnext : Runs document next reference (s.begin path) m t) (hm : m.origin? = none) :
      Runs document node path s m (.conclude path s m t)
  | joined {node path s reference keys siblings next origin p found u ys t}
      (hf : form node path = .reference reference keys siblings)
      (hk : s.finished.lookup path = none) (hl : Text.startsWith reference "#" = true)
      (ha : reference ∉ (s.begin path).active) (ht : target document reference = .ok next)
      (hnext : Runs document next reference (s.begin path) (.map origin p found) u)
      (hbeside : RunsAll document siblings u ys t) :
      Runs document node path s (.merged reference origin found keys ys)
        (.conclude path s (.merged reference origin found keys ys) t)

inductive RunsAll (document : Node) : List (String × Node) → Tracing → List Traced → Tracing → Prop
  | nil {s} : RunsAll document [] s [] s
  | cons {path x rest s y u ys t} (hx : Runs document x path s y u) (hrest : RunsAll document rest u ys t) :
      RunsAll document ((path, x) :: rest) s (y :: ys) t
end

section
variable {document node v : Node} {path : String} {s : Tracing} {t : Expansion}

/-! ## What is expanded can be traced -/

theorem conclude_traced {r : Outcome Node} {R : Traced → Tracing → Prop} (h : conclude path s.erase r = .ok v t)
    (hbody : ∀ u, r = .ok v u → ∃ m u', R m u' ∧ m.erase = v ∧ u'.erase = u) :
    ∃ m u', R m u' ∧ m.erase = v ∧ (Tracing.conclude path s m u').erase = t := by
  cases r with
  | error e u => cases h
  | ok w u =>
    have hw : w = v := by
      cases (congrArg Outcome.answer h : Except.ok w = Except.ok v)
      rfl
    subst hw
    obtain ⟨m, u', hR, rfl, rfl⟩ := hbody u rfl
    rw [Tracing.erase_conclude] at h
    exact ⟨m, u', hR, rfl, (EStateM.Result.ok.inj h).2⟩

/-- Whether all that a step comes to for a node is traced. -/
def IsTraced (document node : Node) (path : String) (step : Step Node) : Prop :=
  ∀ (s : Tracing) v t, step s.erase = .ok v t → ∃ m u, Runs document node path s m u ∧ m.erase = v ∧ u.erase = t

theorem expandParts_traced {follow : String → Step Node} : ∀ (parts : List (String × Node)) (s : Tracing) (ys : List Node)
    (t : Expansion), (∀ q x, (q, x) ∈ parts → IsTraced document x q (expandNode follow x q)) →
    expandParts follow parts s.erase = .ok ys t → ∃ ms u, RunsAll document parts s ms u ∧ ms.map Traced.erase = ys ∧ u.erase = t
  | [], s, ys, t, _, h => by
    cases h
    exact ⟨[], s, .nil, rfl, rfl⟩
  | (q, x) :: rest, s, ys, t, hx, h => by
    rw [expandParts] at h
    obtain ⟨y, u, hy, hrest⟩ := andThen_eq_ok h
    obtain ⟨zs, hzs, rfl⟩ := map_eq_ok hrest
    obtain ⟨m, u', hm, rfl, rfl⟩ := hx q x List.mem_cons_self s y u hy
    obtain ⟨ms, t', hms, rfl, rfl⟩ :=
      expandParts_traced rest u' zs t (fun q x hm => hx q x (List.mem_cons_of_mem _ hm)) hzs
    exact ⟨m :: ms, t', .cons hm hms, rfl, rfl⟩

theorem beside_eq_self {follow : String → Step Node} {x : Node} (hx : ∀ p found, x ≠ .map p found) (reference : String)
    (keys : List String) (siblings : List (String × Node)) (s : Expansion) :
    beside follow reference keys siblings x s = .ok x s := by
  cases x with
  | map p found => exact absurd rfl (hx p found)
  | _ => rfl

theorem whole_traced {follow : String → Step Node} {parts : List (String × Node)} {build : List Node → Node}
    (hf : form node path = .whole parts build) (hparts : ∀ q x, (q, x) ∈ parts → IsTraced document x q (expandNode follow x q))
    (hk : s.erase.finished.lookup path = none)
    (h : conclude path s.erase ((expandParts follow parts (s.erase.begin path)).map build) = .ok v t) :
    ∃ m u, Runs document node path s m u ∧ m.erase = v ∧ u.erase = t := by
  have hbody : ∀ (of : List Traced → Traced), (∀ ys, (of ys).erase = build (ys.map Traced.erase)) → ∃ m u,
      (∃ ys, RunsAll document parts (s.begin path) ys u ∧ m = of ys) ∧ m.erase = v ∧ (Tracing.conclude path s m u).erase = t := by
    refine fun of hof => conclude_traced (R := fun m u => ∃ ys, RunsAll document parts (s.begin path) ys u ∧ m = of ys) h
      fun u hu => ?_
    obtain ⟨vs, hvs, rfl⟩ := map_eq_ok hu
    obtain ⟨ys, u', hys, rfl, rfl⟩ := expandParts_traced parts (s.begin path) vs u hparts hvs
    exact ⟨_, u', ⟨ys, hys, rfl⟩, hof ys, rfl⟩
  cases node with
  | list p items =>
    cases hf
    obtain ⟨m, u, ⟨ys, hys, rfl⟩, hv, ht⟩ := hbody (.list (some path)) fun ys => Traced.erase_list _ _
    exact ⟨_, _, .items (Tracing.lookup_erase_none.1 hk) hys, hv, ht⟩
  | map p entries =>
    obtain ⟨hr, rfl, rfl⟩ := form_map_whole hf
    obtain ⟨m, u, ⟨ys, hys, rfl⟩, hv, ht⟩ := hbody (fun ys => .map .copied (some path) ((entries.map (·.1)).zip ys))
      fun ys => by
        rw [Traced.erase_map, ← List.zip_map_right]
    exact ⟨_, _, .entries hr (Tracing.lookup_erase_none.1 hk) hys, hv, ht⟩
  | _ => cases hf

theorem followed_traced {follow : String → Step Node} {reference : String} {keys : List String}
    {siblings : List (String × Node)} {next : Node} (hf : form node path = .reference reference keys siblings)
    (hparts : ∀ q x, (q, x) ∈ siblings → IsTraced document x q (expandNode follow x q))
    (hk : s.erase.finished.lookup path = none) (hl : Text.startsWith reference "#" = true)
    (ha : reference ∉ (s.erase.begin path).active) (hg : target document reference = .ok next) {step : Step Node}
    (hnext : IsTraced document next reference step)
    (h : conclude path s.erase (Outcome.andThen (step (s.erase.begin path)) (beside follow reference keys siblings)) = .ok v t) :
    ∃ m u, Runs document node path s m u ∧ m.erase = v ∧ u.erase = t := by
  have hk := Tracing.lookup_erase_none.1 hk
  obtain ⟨m, u, hm, hv, ht⟩ := conclude_traced (R := fun m u => Runs document node path s m (.conclude path s m u)) h
    fun u hu => by
      obtain ⟨w, u', hw, hbeside⟩ := andThen_eq_ok hu
      obtain ⟨m, u'', hm, rfl, rfl⟩ := hnext (s.begin path) w u' hw
      cases horigin : m.origin? with
      | none =>
        rw [beside_eq_self (Traced.erase_ne_map horigin)] at hbeside
        cases hbeside
        exact ⟨m, u'', .passed hf hk hl ha hg hm horigin, rfl, rfl⟩
      | some origin =>
        obtain ⟨p, found, rfl⟩ := Traced.exists_of_origin? horigin
        rw [Traced.erase_map] at hbeside
        obtain ⟨vs, hvs, rfl⟩ := map_eq_ok hbeside
        obtain ⟨ys, u₀, hys, rfl, rfl⟩ := expandParts_traced siblings u'' vs u hparts hvs
        exact ⟨_, u₀, .joined hf hk hl ha hg hm hys, Traced.erase_merged _ _ _ _ _, rfl⟩
  exact ⟨m, _, hm, hv, ht⟩

/-- **What is expanded can be traced.** -/
theorem within_traced (depth : Nat) : ∀ (node : Node) (path : String),
    IsTraced document node path (within document depth node path) := by
  -- by the depth for what a reference leads to, by the node for its parts
  induction depth using Nat.strong_induction_on with
  | _ depth jump =>
  refine parts_induction fun node ih path s v t h => ?_
  have hparts : ∀ q x, (q, x) ∈ (form node path).parts → IsTraced document x q (expandNode (follow document depth) x q) :=
    fun q x hm => ih path q x hm q
  rw [within] at h
  cases expandNode_visit (follow document depth) node path s.erase with
  | leaf hf he =>
    rw [he] at h
    cases h
    exact ⟨_, s, .scalar ((form_eq_leaf_iff node path).1 hf), rfl, rfl⟩
  | known w hf hk he =>
    rw [he] at h
    cases h
    rw [Tracing.lookup_erase] at hk
    obtain ⟨m, hm, rfl⟩ := Option.map_eq_some_iff.1 hk
    exact ⟨m, s, .known (Bool.not_eq_true _ ▸ mt (form_eq_leaf_iff node path).2 hf) hm, rfl, rfl⟩
  | whole parts build hf hk he =>
    rw [hf] at hparts
    rw [he] at h
    exact whole_traced hf hparts hk h
  | remote reference keys siblings hf hk hl he =>
    rw [he] at h
    cases h
  | cut reference keys siblings hf hk hl ha he =>
    rw [he] at h
    obtain ⟨m, u, ⟨rfl, rfl⟩, hv, ht⟩ := conclude_traced (R := fun m u =>
      m = .stub reference ∧ u = { s.begin path with stubs := s.stubs + 1 }) h fun u hu => by
        cases hu
        exact ⟨_, _, ⟨rfl, rfl⟩, rfl, rfl⟩
    exact ⟨_, _, .cut hf (Tracing.lookup_erase_none.1 hk) hl ha, hv, ht⟩
  | followed reference keys siblings hf hk hl ha he =>
    rw [hf] at hparts
    rw [he] at h
    cases depth with
    | zero => cases h
    | succ less =>
      cases hg : target document reference with
      | error e =>
        rw [follow_error hg] at h
        cases h
      | ok next =>
        rw [follow_target hg] at h
        exact followed_traced hf hparts hk hl ha hg (jump less (Nat.lt_succ_self less) next reference) h

/-! ## What is traced is expanded -/

theorem within_of_le {d e : Nat} (hle : d ≤ e) {s : Expansion} (h : within document d node path s = .ok v t) :
    within document e node path s = .ok v t := by
  rw [within_mono hle (by rw [h]; exact Outcome.ended_ok v t), h]

theorem expandParts_of_le {d e : Nat} (hle : d ≤ e) {parts : List (String × Node)} {s : Expansion} {ys : List Node}
    (h : expandParts (follow document d) parts s = .ok ys t) : expandParts (follow document e) parts s = .ok ys t := by
  rw [expandParts_extends parts s (fun q x _ s hx => expandNode_extends (follow_mono hle) x q s hx)
    (by rw [h]; exact Outcome.ended_ok ys t), h]

theorem form_map_own {p : Option String} {entries : List (String × Node)} (hr : reference? entries = none) (path : String) :
    form (.map p entries) path =
      .whole (partsOfEntries path entries) fun ys => .map (some path) ((entries.map (·.1)).zip ys) := by
  simp only [form, hr]

end

mutual
/-- **What is traced is expanded**, its origins erased. -/
theorem Runs.within {document node : Node} {path : String} {s t : Tracing} {m : Traced} : Runs document node path s m t →
    ∃ depth, within document depth node path s.erase = .ok m.erase t.erase
  | .scalar hs => ⟨0, expandNode_leaf ((form_eq_leaf_iff _ _).2 hs)⟩
  | .known hs hk => by
    have hf : form node path ≠ .leaf := fun hf => Bool.false_ne_true (hs.symm.trans ((form_eq_leaf_iff node path).1 hf))
    exact ⟨0, expandNode_known hf (by rw [Tracing.lookup_erase, hk, Option.map_some])⟩
  | .items hk hitems => by
    obtain ⟨depth, hd⟩ := hitems.within
    refine ⟨depth, (expandNode_whole rfl (Tracing.lookup_erase_none.2 hk)).trans ?_⟩
    rw [show s.erase.begin path = (s.begin path).erase from rfl, hd, ← Tracing.erase_conclude, Traced.erase_list]
    rfl
  | .entries hr hk hentries => by
    obtain ⟨depth, hd⟩ := hentries.within
    refine ⟨depth, (expandNode_whole (form_map_own hr path) (Tracing.lookup_erase_none.2 hk)).trans ?_⟩
    rw [show s.erase.begin path = (s.begin path).erase from rfl, hd, ← Tracing.erase_conclude, Traced.erase_map,
      ← List.zip_map_right]
    rfl
  | .cut hf hk hl ha => by
    refine ⟨0, (expandNode_cut hf (Tracing.lookup_erase_none.2 hk) hl ha).trans ?_⟩
    rw [← Tracing.erase_conclude]
    rfl
  | .passed hf hk hl ha ht hnext hm => by
    obtain ⟨depth, hd⟩ := hnext.within
    refine ⟨depth + 1, (expandNode_followed hf (Tracing.lookup_erase_none.2 hk) hl ha).trans ?_⟩
    rw [follow_target ht, show s.erase.begin path = (s.begin path).erase from rfl, hd, ← Tracing.erase_conclude]
    exact congrArg _ (beside_eq_self (Traced.erase_ne_map hm) _ _ _ _)
  | .joined hf hk hl ha ht hnext hbeside => by
    -- one depth for what the reference leads to and for what stands beside it
    obtain ⟨d, hd⟩ := hnext.within
    obtain ⟨e, he⟩ := hbeside.within
    have hnext' := within_of_le (Nat.le_max_left d e) hd
    have hbeside' := expandParts_of_le (Nat.le_succ_of_le (Nat.le_max_right d e)) he
    refine ⟨max d e + 1, (expandNode_followed hf (Tracing.lookup_erase_none.2 hk) hl ha).trans ?_⟩
    rw [follow_target ht, show s.erase.begin path = (s.begin path).erase from rfl, hnext', ← Tracing.erase_conclude,
      Traced.erase_merged, Traced.erase_map]
    refine congrArg _ ?_
    show (expandParts _ _ _).map _ = _
    rw [hbeside']
    rfl

theorem RunsAll.within {document : Node} {parts : List (String × Node)} {s t : Tracing} {ys : List Traced} :
    RunsAll document parts s ys t →
    ∃ depth, expandParts (follow document depth) parts s.erase = .ok (ys.map Traced.erase) t.erase
  | .nil => ⟨0, rfl⟩
  | .cons hx hrest => by
    obtain ⟨d, hd⟩ := hx.within
    obtain ⟨e, he⟩ := hrest.within
    have hx' := within_of_le (Nat.le_max_left d e) hd
    have hrest' := expandParts_of_le (Nat.le_max_right d e) he
    refine ⟨max d e, ?_⟩
    rw [expandParts, show expandNode _ _ _ _ = _ from hx']
    show Outcome.map _ (expandParts _ _ _) = _
    rw [hrest']
    rfl
end

/-- **Tracing changes nothing**: what a node can be expanded to is what it is traced to, its origins erased. -/
theorem within_eq_ok_iff {document node v : Node} {path : String} {s : Tracing} {t : Expansion} :
    (∃ depth, within document depth node path s.erase = .ok v t) ↔
      ∃ m u, Runs document node path s m u ∧ m.erase = v ∧ u.erase = t := by
  constructor
  · rintro ⟨depth, h⟩
    exact within_traced depth node path s v t h
  · rintro ⟨m, u, h, rfl, rfl⟩
    exact h.within

end Expansion
end TypedClient
