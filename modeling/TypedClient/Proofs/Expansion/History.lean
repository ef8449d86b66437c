import TypedClient.Proofs.Expansion.Alike
import TypedClient.Proofs.Expansion.Memory
/-!
# History — what was expanded before never shows

Two expansions of one place that differ in what is remembered only go on **alike**: a place that can be inlined comes to the same
value in both, remembered or not, and at every other place neither remembers anything, so that both take the same step.  The
places that are being expanded around a place are then among those that cannot be inlined, so that neither walk is cut inside
what the other remembers (`within_alike`).
-/
namespace TypedClient
namespace Expansion

open Outcome (Ended)

/-! ## Twins -/

/-- **Two sound states that differ in what is remembered only**, and what is being expanded in them cannot be inlined. -/
structure Twins (document : Node) (s t : Expansion) : Prop where
  sound_left : Sound document s
  sound_right : Sound document t
  active_iff : SameActive s t
  uninlined : ∀ q ∈ s.active, ∀ depth v, inlineReference document depth q ≠ .ok v

variable {document : Node} {s t : Expansion}

theorem outranked_of_uninlined {active : List String} (h : ∀ q ∈ active, ∀ depth v, inlineReference document depth q ≠ .ok v)
    (path : String) (depth : Nat) : Outranked document (fun _ => False) active path depth := by
  have hnot : ∀ q ∈ active, ∀ depth, ¬ Tolerated (fun _ => False) (inlineReference document depth q) := by
    intro q hq depth hd
    cases hv : inlineReference document depth q with
    | error e => exact hd e hv
    | ok v => exact h q hq depth v hv
  exact fun q hq => ⟨hnot q hq depth, .inl (hnot q hq (depth + 1))⟩

namespace Twins

theorem begin {path : String} (h : Twins document s t) (hp : ∀ depth v, inlineReference document depth path ≠ .ok v) :
    Twins document (s.begin path) (t.begin path) := by
  refine ⟨sound_of_finished h.sound_left rfl, sound_of_finished h.sound_right rfl,
    sameActive_congruence.begin path h.active_iff, fun q hq => ?_⟩
  rcases (mem_begin path q s).1 hq with rfl | hq
  · exact hp
  · exact h.uninlined q hq

theorem after {α : Type} {inl : Nat → Except ExpandError α} {r u : Outcome α} (h : Twins document s t)
    (hr : Accounted document inl s r) (hu : Accounted document inl t u) (hact : SameActive r.state u.state) :
    Twins document r.state u.state :=
  ⟨hr.sound h.sound_left, hu.sound h.sound_right, hact, fun q hq => h.uninlined q (hr.active_sub q hq)⟩

end Twins

/-! ## Walks of twins -/

theorem alike_of_plain {α : Type} {a : Except ExpandError α} {r u : Outcome α} (hr : Plain document a s r)
    (hu : Plain document a t u) (hact : SameActive s t) : Alike SameActive s t r u := by
  refine ⟨hr.answer_eq.trans hu.answer_eq.symm, fun q => ?_, ?_⟩
  · rw [hr.active_iff q, hact q, hu.active_iff q]
  · rw [hr.stubs_eq, hu.stubs_eq, Nat.add_comm]

/-- **Two steps that go on alike if the second has depth enough**; `u` is what the second comes to with a depth. -/
def GoesAlike {α : Type} (s t : Expansion) (r : Outcome α) (u : Nat → Outcome α) : Prop :=
  ∃ enough u', Alike SameActive s t r u' ∧ ∀ more ≥ enough, u more = u'

namespace GoesAlike

variable {α β : Type} {r : Outcome α} {u : Nat → Outcome α}

theorem of_alike {u : Outcome α} (h : Alike SameActive s t r u) : GoesAlike s t r fun _ => u := ⟨0, u, h, fun _ _ => rfl⟩

theorem map (h : GoesAlike s t r u) (g : α → β) : GoesAlike s t (r.map g) fun more => (u more).map g := by
  obtain ⟨n, u', ha, hu⟩ := h
  exact ⟨n, u'.map g, ha.map g, fun more hm => congrArg (Outcome.map g) (hu more hm)⟩

theorem andThen {k : α → Expansion → Outcome β} {l : Nat → α → Expansion → Outcome β} (h : GoesAlike s t r u)
    (hk : ∀ v s' t' n, r = .ok v s' → u n = .ok v t' → SameActive s' t' →
      GoesAlike s' t' (k v s') fun more => l more v t') :
    GoesAlike s t (r.andThen k) fun more => (u more).andThen (l more) := by
  obtain ⟨n, u', ha, hu⟩ := h
  by_cases hv : ∃ v s' t', r = .ok v s' ∧ u' = .ok v t'
  · obtain ⟨v, s', t', rfl, rfl⟩ := hv
    obtain ⟨n', w, hw, hw'⟩ := hk v s' t' n rfl (hu n (Nat.le_refl n)) ha.related
    refine ⟨max n n', w, ?_, fun more hm => ?_⟩
    · refine Alike.andThen (l := fun _ _ => w) ha fun v'' s'' t'' h1 h2 _ => ?_
      cases h1
      cases h2
      exact hw
    · simp only [hu more (Nat.le_trans (Nat.le_max_left n n') hm)]
      exact hw' more (Nat.le_trans (Nat.le_max_right n n') hm)
  · refine ⟨n, u'.andThen (l n), ha.andThen fun v s' t' h1 h2 _ => absurd ⟨v, s', t', h1, h2⟩ hv, fun more hm => ?_⟩
    simp only [hu more hm]
    rcases ha.cases with ⟨v, s', t', h1, h2⟩ | ⟨e, s', t', -, rfl⟩
    · exact absurd ⟨v, s', t', h1, h2⟩ hv
    · rfl

theorem conclude {r : Outcome Node} {u : Nat → Outcome Node} {path : String}
    (h : GoesAlike (s.begin path) (t.begin path) r u) :
    GoesAlike s t (conclude path s r) fun more => conclude path t (u more) := by
  obtain ⟨n, u', ha, hu⟩ := h
  exact ⟨n, Expansion.conclude path t u', ha.conclude sameActive_congruence, fun more hm => congrArg (Expansion.conclude path t) (hu more hm)⟩

theorem of_succ (h : GoesAlike s t r fun more => u (more + 1)) : GoesAlike s t r u := by
  obtain ⟨n, u', ha, hu⟩ := h
  refine ⟨n + 1, u', ha, fun more hm => ?_⟩
  obtain ⟨l, rfl⟩ : ∃ l, more = l + 1 := Nat.exists_eq_succ_of_ne_zero (by omega)
  exact hu l (by omega)

end GoesAlike

theorem within_alike_of_inlined (hd : document.Proper) {node : Node} {path : String} {depth rank : Nat} {v : Node}
    (hr : Pointer.resolve document path = .ok (some node)) (h : Twins document s t)
    (hv : inlineNode (inlineReference document rank) node path = .ok v) (hend : Ended (within document depth node path s)) :
    GoesAlike s t (within document depth node path s) fun more => within document more node path t := by
  have htol : Tolerated (fun _ => False) (inlineNode (inlineReference document rank) node path) := by
    rw [hv]
    exact tolerated_ok v
  have hleft := expandNode_inlined hd id rank node path s (max depth rank) (Nat.le_max_right depth rank) hr h.sound_left htol
    (outranked_of_uninlined h.uninlined path rank)
  have hright := expandNode_inlined hd id rank node path t rank (Nat.le_refl rank) hr h.sound_right htol
    (outranked_of_uninlined (fun q hq => h.uninlined q ((h.active_iff q).2 hq)) path rank)
  rw [within_mono (Nat.le_max_left depth rank) hend] at hleft
  refine ⟨rank, _, alike_of_plain hleft hright h.active_iff, fun more hm => within_mono hm ?_⟩
  rw [Ended, hright.answer_eq, hv]
  simp

theorem expandParts_alike (hd : document.Proper) {depth : Nat} : ∀ (parts : List (String × Node)) (s t : Expansion),
    (∀ q x, (q, x) ∈ parts → Pointer.resolve document q = .ok (some x)) →
    (∀ q x, (q, x) ∈ parts → ∀ s t, Twins document s t → Ended (within document depth x q s) →
      GoesAlike s t (within document depth x q s) fun more => within document more x q t) →
    Twins document s t → Ended (expandParts (follow document depth) parts s) →
    GoesAlike s t (expandParts (follow document depth) parts s) fun more => expandParts (follow document more) parts t
  | [], s, t, _, _, h, _ => GoesAlike.of_alike (Alike.ok [] h.active_iff)
  | (q, x) :: rest, s, t, hr, hx, h, hend => by
    have hq := hr q x List.mem_cons_self
    rw [expandParts] at hend
    simp only [expandParts]
    refine (hx q x List.mem_cons_self s t h hend.first).andThen fun v s' t' n hs ht hact => ?_
    have hleft := within_accounted hd depth x q s hq
    have hright := within_accounted hd n x q t hq
    rw [hs] at hleft
    rw [ht] at hright
    rw [within] at hs
    simp only [hs, Outcome.andThen, Outcome.ended_map] at hend
    refine GoesAlike.map ?_ (v :: ·)
    exact expandParts_alike hd rest s' t' (fun q x hm => hr q x (List.mem_cons_of_mem _ hm))
      (fun q x hm => hx q x (List.mem_cons_of_mem _ hm)) (h.after hleft hright hact) hend

theorem lookup_of_uninlined {path : String} (hpath : ∀ depth v, inlineReference document depth path ≠ .ok v)
    (hs : Sound document s) : s.finished.lookup path = none := by
  cases hk : s.finished.lookup path with
  | none => rfl
  | some v =>
    obtain ⟨depth, hv⟩ := hs path v hk
    exact absurd hv (hpath depth v)

theorem follow_alike {depth : Nat} {reference : String} (h : Twins document s t)
    (hnext : ∀ less next, depth = less + 1 → target document reference = .ok next →
      Ended (within document less next reference s) →
      GoesAlike s t (within document less next reference s) fun more => within document more next reference t)
    (hend : Ended (follow document depth reference s)) :
    GoesAlike s t (follow document depth reference s) fun more => follow document more reference t := by
  cases depth with
  | zero => exact absurd rfl hend
  | succ less =>
    refine GoesAlike.of_succ ?_
    cases hg : target document reference with
    | error e =>
      simp only [follow_error hg]
      exact GoesAlike.of_alike (Alike.error e h.active_iff)
    | ok next =>
      rw [follow_target hg] at hend
      simp only [follow_target hg]
      exact hnext less next rfl hg hend

/-- **Twins expand a place alike**, if one of them comes to an end. -/
theorem within_alike (hd : document.Proper) (depth : Nat) : ∀ (node : Node) (path : String) (s t : Expansion),
    Pointer.resolve document path = .ok (some node) → Twins document s t → Ended (within document depth node path s) →
    GoesAlike s t (within document depth node path s) fun more => within document more node path t := by
  induction depth using Nat.strong_induction_on with
  | _ depth jump =>
  refine parts_induction fun node ih path s t hr h hend => ?_
  by_cases hin : ∃ rank v, inlineNode (inlineReference document rank) node path = .ok v
  · obtain ⟨rank, v, hv⟩ := hin
    exact within_alike_of_inlined hd hr h hv hend
  -- a place that cannot be inlined is remembered by neither, and both do the same there
  have hpath : form node path ≠ .leaf → ∀ depth v, inlineReference document depth path ≠ .ok v := by
    intro hf depth v hv
    cases depth with
    | zero => cases hv
    | succ depth => exact hin ⟨depth, v, by rw [← inlineReference_target (target_of_placed hr hf), hv]⟩
  have hbegin : form node path ≠ .leaf → Twins document (s.begin path) (t.begin path) := fun hf => h.begin (hpath hf)
  have hkt : form node path ≠ .leaf → t.finished.lookup path = none :=
    fun hf => lookup_of_uninlined (hpath hf) h.sound_right
  have hres : ∀ q x, (q, x) ∈ (form node path).parts → Pointer.resolve document q = .ok (some x) :=
    fun q x hm => resolve_part hd hr hm
  have hparts : ∀ q x, (q, x) ∈ (form node path).parts → ∀ s t, Twins document s t → Ended (within document depth x q s) →
      GoesAlike s t (within document depth x q s) fun more => within document more x q t :=
    fun q x hm s t => ih path q x hm q s t (hres q x hm)
  unfold within at hend ⊢
  cases expandNode_visit (follow document depth) node path s with
  | leaf hf he =>
    simp only [he, expandNode_leaf hf]
    exact GoesAlike.of_alike (Alike.ok node h.active_iff)
  | known v hf hk he =>
    rw [lookup_of_uninlined (hpath hf) h.sound_left] at hk
    cases hk
  | whole parts build hf hk he =>
    have hbegin := hbegin (by simp [hf])
    have hkt := hkt (by simp [hf])
    rw [hf] at hres hparts
    rw [he, ended_conclude, Outcome.ended_map] at hend
    simp only [he, expandNode_whole hf hkt]
    exact ((expandParts_alike hd parts _ _ hres hparts hbegin hend).map build).conclude
  | remote reference keys siblings hf hk hl he =>
    simp only [he, expandNode_remote hf (hkt (by simp [hf])) hl]
    exact (GoesAlike.of_alike (Alike.error _ (hbegin (by simp [hf])).active_iff)).conclude
  | cut reference keys siblings hf hk hl ha he =>
    have hact := (hbegin (by simp [hf])).active_iff
    simp only [he, expandNode_cut hf (hkt (by simp [hf])) hl ((hact reference).1 ha)]
    exact (GoesAlike.of_alike (Alike.stub sameActive_congruence (stub reference) hact)).conclude
  | followed reference keys siblings hf hk hl ha he =>
    have hbegin := hbegin (by simp [hf])
    have ha' : reference ∉ (t.begin path).active := fun hm => ha ((hbegin.active_iff reference).2 hm)
    rw [hf] at hres hparts
    rw [he, ended_conclude] at hend
    simp only [he, expandNode_followed hf (hkt (by simp [hf])) hl ha']
    have hgo := follow_alike hbegin (fun less next hless hg => jump less (by omega) next reference _ _
      (target_eq_ok.1 hg).1 hbegin) hend.first
    refine (hgo.andThen fun v s' t' n hs ht hact => ?_).conclude
    have htwins : Twins document s' t' := by
      have hleft := follow_accounted hd depth reference (s.begin path)
      have hright := follow_accounted hd n reference (t.begin path)
      rw [hs] at hleft
      rw [ht] at hright
      exact hbegin.after hleft hright hact
    rw [hs] at hend
    cases v with
    | map p found =>
      simp only [Outcome.andThen, beside, Outcome.ended_map] at hend
      exact (expandParts_alike hd siblings s' t' hres hparts htwins hend).map (merged reference found keys)
    | _ => exact GoesAlike.of_alike (Alike.ok _ htwins.active_iff)

/-! ## Histories -/

/-- **What one expansion can have behind it**: calls for what stands at their places, one after the other, each with whatever depth
it had and whether or not it failed. -/
inductive History (document : Node) : Expansion → Prop where
  | fresh : History document .empty
  | call {s : Expansion} {node : Node} {path : String} (before : History document s) (depth : Nat)
    (hr : Pointer.resolve document path = .ok (some (asked document node))) :
    History document (Outcome.state (within document depth (asked document node) path s))

/-- Behind every call nothing is active, and what is remembered is sound. -/
theorem sound_of_history (hd : document.Proper) (h : History document s) : Sound document s ∧ s.active = [] := by
  induction h with
  | fresh => exact ⟨sound_empty document, rfl⟩
  | @call s node path before depth hr ih =>
    obtain ⟨hs, ha⟩ := ih
    have hacc := within_accounted hd depth (asked document node) path s hr
    refine ⟨hacc.sound hs, List.eq_nil_iff_forall_not_mem.2 fun q hq => ?_⟩
    have := hacc.active_sub q hq
    rw [ha] at this
    cases this

/-- **A history never shows.**  A call that comes to an end when nothing was expanded before comes to the same end behind every
history, and what is remembered at a place is what plain inlining comes to there, which knows of no way it was come to. -/
theorem fresh_answer_of_history (document : Node) (hd : document.Proper) (s : Expansion) (h : History document s) :
    (∀ (node : Node) (path : String) (depth : Nat), Pointer.resolve document path = .ok (some (asked document node)) →
      Ended (within document depth (asked document node) path .empty) →
      ∃ enough, ∀ more ≥ enough, Outcome.answer (within document more (asked document node) path s) =
        Outcome.answer (within document depth (asked document node) path .empty)) ∧
    ∀ path v, s.finished.lookup path = some v → ∃ depth, inlineReference document depth path = .ok v := by
  obtain ⟨hs, ha⟩ := sound_of_history hd h
  refine ⟨fun node path depth hr hend => ?_, hs⟩
  have htwins : Twins document .empty s :=
    ⟨sound_empty document, hs, fun q => by rw [ha, empty], fun q hq => by cases hq⟩
  obtain ⟨enough, u, halike, hu⟩ := within_alike hd depth _ path .empty s hr htwins hend
  exact ⟨enough, fun more hm => (congrArg Outcome.answer (hu more hm)).trans halike.answer_eq.symm⟩

/-- What stands at the second of two places that refer to each other. -/
def opposite : Node := .map none [("next", .map none [("$ref", .str "#/a")])]

/-- Two places that refer to each other. -/
def roundabout : Node := .map none [("a", .map none [("next", .map none [("$ref", .str "#/b")])]), ("b", opposite)]

theorem roundabout_history_answer :
    Pointer.resolve roundabout "#/b" = .ok (some opposite) ∧ Ended (within roundabout 2 opposite "#/b" .empty) ∧
    ∃ enough, ∀ more ≥ enough,
      Outcome.answer (within roundabout more opposite "#/b" (Outcome.state (within roundabout 5 roundabout "#" .empty))) =
        .ok (.map (some "#/b") [("next", .map (some "#/a") [("$ref", .str "#/a"),
          ("next", .map (some "#/b") [("$ref", .str "#/b")])])]) := by
  have hr : Pointer.resolve roundabout "#/b" = .ok (some opposite) := by rfl
  have hend : Ended (within roundabout 2 opposite "#/b" .empty) := by
    intro h
    cases h
  have hs : History roundabout (Outcome.state (within roundabout 5 (asked roundabout .null) "#" .empty)) :=
    .call .fresh 5 (Pointer.resolve_root roundabout)
  exact ⟨hr, hend, (fresh_answer_of_history roundabout (by decide) _ hs).1 opposite "#/b" 2 hr hend⟩

/-- A mapping with null in it. -/
def withNull : Node := .map none [("x", .null), ("a", .map none [("k", .int 1)])]

/-- **Null asks for the whole document, at whatever place**: where the place designates null or nothing it does not tell what is
expanded, and what was expanded before shows. -/
theorem withNull_history_shows :
    Pointer.resolve withNull "#/x" = .ok (some .null) ∧ Pointer.resolve withNull "#/x/a" = .ok none ∧
    Outcome.answer (expandAt withNull .null "#/x/a" .empty) =
      .ok (.map (some "#/x/a") [("x", .null), ("a", .map (some "#/x/a/a") [("k", .int 1)])]) ∧
    Outcome.answer (expandAt withNull .null "#/x/a" (Outcome.state (expandAt withNull .null "#/x" .empty))) =
      .ok (.map (some "#/x/a") [("k", .int 1)]) := by
  refine ⟨?_, ?_, ?_, ?_⟩ <;> rfl
end Expansion
end TypedClient
