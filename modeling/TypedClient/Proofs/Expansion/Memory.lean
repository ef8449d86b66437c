import TypedClient.Proofs.Expansion.Uncut
/-!
# Memory — what is remembered is what is inlined

An expansion that makes no stub has cut nothing: it is plain inlining, whatever places were active while it was made.  So only what
does not depend on the way it was come to is remembered, and a sound state stays sound, whatever is expanded and however it ends
(`within_accounted`).
-/
namespace TypedClient
namespace Expansion

variable {α β : Type} {document : Node}

/-- **What every step accounts for**: a sound state stays sound, stubs are only added, no place stays active that was not so, and a
value that comes without a stub is what inlining comes to from some depth on. -/
structure Accounted (document : Node) (inl : Nat → Except ExpandError α) (s : Expansion) (r : Outcome α) : Prop where
  sound : Sound document s → Sound document r.state
  stubs_le : s.stubs ≤ r.state.stubs
  active_sub : ∀ q ∈ r.state.active, q ∈ s.active
  inlined : Sound document s → ∀ v t, r = .ok v t → t.stubs = s.stubs → ∃ depth, ∀ more ≥ depth, inl more = .ok v

namespace Accounted

variable {inl : Nat → Except ExpandError α} {s : Expansion} {r : Outcome α}

theorem ok (v : α) (h : Sound document s → ∃ depth, ∀ more ≥ depth, inl more = .ok v) :
    Accounted document inl s (.ok v s) := by
  refine ⟨id, Nat.le_refl _, fun _ => id, fun hs w t hw _ => ?_⟩
  cases hw
  exact h hs

theorem error (e : ExpandError) : Accounted document inl s (.error e s) :=
  ⟨id, Nat.le_refl _, fun _ => id, fun _ _ _ h => by cases h⟩

theorem map (h : Accounted document inl s r) (g : α → β) :
    Accounted document (fun depth => (inl depth).map g) s (r.map g) := by
  obtain ⟨hso, hst, hac, hin⟩ := h
  cases r with
  | error e t => exact ⟨hso, hst, hac, fun _ _ _ h => by cases h⟩
  | ok v t =>
    refine ⟨hso, hst, hac, fun hs w u hw hu => ?_⟩
    cases hw
    obtain ⟨depth, hd⟩ := hin hs v t rfl hu
    exact ⟨depth, fun more hm => by rw [hd more hm]; rfl⟩

theorem andThen {k : Nat → α → Except ExpandError β} {l : α → Expansion → Outcome β} (h : Accounted document inl s r)
    (hl : ∀ v t, r = .ok v t → Accounted document (fun depth => k depth v) t (l v t)) :
    Accounted document (fun depth => (inl depth).bind (k depth)) s (r.andThen l) := by
  obtain ⟨hso, hst, hac, hin⟩ := h
  cases r with
  | error e t => exact ⟨hso, hst, hac, fun _ _ _ h => by cases h⟩
  | ok v t =>
    obtain ⟨hso', hst', hac', hin'⟩ := hl v t rfl
    refine ⟨fun hs => hso' (hso hs), Nat.le_trans hst hst', fun q hq => hac q (hac' q hq), fun hs w u hw hu => ?_⟩
    have hw : l v t = .ok w u := hw
    have hst : s.stubs ≤ t.stubs := hst
    rw [hw] at hst'
    have htu : t.stubs ≤ u.stubs := hst'
    obtain ⟨d, hd⟩ := hin hs v t rfl (by omega)
    obtain ⟨d', hd'⟩ := hin' (hso hs) w u hw (by omega)
    refine ⟨max d d', fun more hm => ?_⟩
    rw [hd more (Nat.le_trans (Nat.le_max_left d d') hm)]
    exact hd' more (Nat.le_trans (Nat.le_max_right d d') hm)

theorem conclude {inl : Nat → Except ExpandError Node} {r : Outcome Node} {path : String}
    (h : Accounted document inl (s.begin path) r) (hp : ∀ depth, inlineReference document (depth + 1) path = inl depth) :
    Accounted document inl s (conclude path s r) := by
  obtain ⟨hso, hst, hac, hin⟩ := h
  have hbegin : Sound document s → Sound document (s.begin path) := fun hs => sound_of_finished hs rfl
  have hact : ∀ t : Expansion, (∀ q ∈ t.active, q ∈ (s.begin path).active) → ∀ q ∈ (t.finish path).active, q ∈ s.active := by
    intro t ht q hq
    obtain ⟨hne, hq⟩ := (mem_finish path q t).1 hq
    rcases (mem_begin path q s).1 (ht q hq) with h | h
    · exact absurd h hne
    · exact h
  cases r with
  | error e t =>
    exact ⟨fun hs => sound_of_finished (hso (hbegin hs)) rfl, hst, hact t hac, fun _ _ _ h => by cases h⟩
  | ok v t =>
    by_cases hstubs : t.stubs = s.stubs
    · rw [conclude_kept path v hstubs]
      refine ⟨fun hs => ?_, hst, hact t hac, fun hs w u hw _ => ?_⟩
      · obtain ⟨depth, hd⟩ := hin (hbegin hs) v t rfl hstubs
        exact sound_cons (s := t) (hso (hbegin hs)) ((hp depth).trans (hd depth (Nat.le_refl _))) rfl
      · cases hw
        exact hin (hbegin hs) v t rfl hstubs
    · rw [conclude_stubbed path v hstubs]
      refine ⟨fun hs => sound_of_finished (hso (hbegin hs)) rfl, hst, hact t hac, fun _ w u hw hu => ?_⟩
      cases hw
      exact absurd hu hstubs

theorem of_succ (h : Accounted document (fun depth => inl (depth + 1)) s r) : Accounted document inl s r := by
  obtain ⟨hso, hst, hac, hin⟩ := h
  refine ⟨hso, hst, hac, fun hs v t hr ht => ?_⟩
  obtain ⟨depth, hd⟩ := hin hs v t hr ht
  refine ⟨depth + 1, fun more hm => ?_⟩
  obtain ⟨l, rfl⟩ : ∃ l, more = l + 1 := Nat.exists_eq_succ_of_ne_zero (by omega)
  exact hd l (by omega)

end Accounted

theorem expandParts_accounted {follow : String → Step Node} : ∀ (parts : List (String × Node)) (s : Expansion),
    (∀ q x, (q, x) ∈ parts → ∀ t,
      Accounted document (fun depth => inlineNode (inlineReference document depth) x q) t (expandNode follow x q t)) →
    Accounted document (fun depth => inlineParts (inlineReference document depth) parts) s (expandParts follow parts s)
  | [], s, _ => Accounted.ok [] fun _ => ⟨0, fun _ _ => rfl⟩
  | (q, x) :: rest, s, hx => by
    simp only [inlineParts, expandParts]
    refine (hx q x List.mem_cons_self s).andThen fun y t _ => ?_
    exact (expandParts_accounted rest t fun q x hm => hx q x (List.mem_cons_of_mem _ hm)).map (y :: ·)

theorem expandNode_accounted (hd : document.Proper) {follow : String → Step Node}
    (hfollow : ∀ r t, Accounted document (fun depth => inlineReference document depth r) t (follow r t)) :
    ∀ (node : Node) (path : String) (s : Expansion), Pointer.resolve document path = .ok (some node) →
    Accounted document (fun depth => inlineNode (inlineReference document depth) node path) s
      (expandNode follow node path s) := by
  refine parts_induction fun node ih path s hr => ?_
  have hparts : ∀ q x, (q, x) ∈ (form node path).parts → ∀ t,
      Accounted document (fun depth => inlineNode (inlineReference document depth) x q) t (expandNode follow x q t) :=
    fun q x hm t => ih path q x hm q t (resolve_part hd hr hm)
  have hp : form node path ≠ .leaf → ∀ depth,
      inlineReference document (depth + 1) path = inlineNode (inlineReference document depth) node path :=
    fun hf => inlineReference_target (target_of_placed hr hf)
  simp only [inlineNode_form] at hp ⊢
  cases expandNode_visit follow node path s with
  | leaf hf he =>
    rw [he, hf]
    exact Accounted.ok node fun _ => ⟨0, fun _ _ => rfl⟩
  | known v hf hk he =>
    rw [he]
    refine Accounted.ok v fun hs => ?_
    obtain ⟨depth, hv⟩ := inlineNode_of_known hs hk (target_of_placed hr hf)
    refine ⟨depth, fun more hm => ?_⟩
    rw [← inlineNode_form, inlineNode_mono hm (by rw [hv]; simp), hv]
  | whole parts build hf hk he =>
    simp only [hf] at hp hparts ⊢
    rw [he]
    exact Accounted.conclude ((expandParts_accounted parts _ hparts).map build) (hp (by simp))
  | remote reference keys siblings hf hk hl he =>
    simp only [hf, hl, Bool.false_eq_true, if_false] at hp ⊢
    rw [he]
    exact Accounted.conclude (Accounted.error _) (hp (by simp))
  | cut reference keys siblings hf hk hl ha he =>
    simp only [hf, hl, if_true] at hp ⊢
    rw [he]
    refine Accounted.conclude ⟨fun hs => sound_of_finished hs rfl, Nat.le_succ _, fun _ => id, ?_⟩ (hp (by simp))
    -- a stub was made
    intro _ v t hv hst
    cases hv
    exact absurd hst (Nat.succ_ne_self _)
  | followed reference keys siblings hf hk hl ha he =>
    simp only [hf, hl, if_true] at hp hparts ⊢
    rw [he]
    refine Accounted.conclude ((hfollow reference (s.begin path)).andThen fun next t _ => ?_) (hp (by simp))
    cases next with
    | map p found => exact (expandParts_accounted siblings t hparts).map (merged reference found keys)
    | _ => exact Accounted.ok _ fun _ => ⟨0, fun _ _ => rfl⟩

/-- A reference that is followed accounts for what it does. -/
theorem follow_accounted (hd : document.Proper) : ∀ (depth : Nat) (r : String) (s : Expansion),
    Accounted document (fun depth => inlineReference document depth r) s (follow document depth r s)
  | 0, _, _ => Accounted.error .endless
  | depth + 1, r, s => Accounted.of_succ <| by
    cases ht : target document r with
    | error e =>
      rw [follow_error ht]
      exact Accounted.error e
    | ok node =>
      simp only [follow_target ht, inlineReference_target ht]
      exact expandNode_accounted hd (follow_accounted hd depth) node r s (target_eq_ok.1 ht).1

/-- **Every expansion accounts for what it does**, whatever was done before. -/
theorem within_accounted (hd : document.Proper) (depth : Nat) (node : Node) (path : String) (s : Expansion)
    (hr : Pointer.resolve document path = .ok (some node)) :
    Accounted document (fun depth => inlineNode (inlineReference document depth) node path) s
      (within document depth node path s) :=
  expandNode_accounted hd (follow_accounted hd depth) node path s hr

end Expansion
end TypedClient
