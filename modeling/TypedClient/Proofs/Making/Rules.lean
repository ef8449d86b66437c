import TypedClient.Proofs.Linking.Methods
/-!
# Rules — what can be said of a module while it is made

A row of acts tells what a module went through, and forgets what it was done for.  A **claim** speaks of the session
itself: of the names whose typedef is still to come, of the names in the types that were made and are not placed yet, and of
what the session holds.  `Rules` lists what has to be shown of a claim for each single step; compound computations follow
by `Does.bind`.

A claim may depend on what names are entered and what values are enumerated; then it says why a step fails.
-/
namespace TypedClient

open Codegen (Session Gen)
open Emit (TypeExpr Typedef TypedefBody)
open Scope (Definition Symbol Table Tree)

namespace Making

open Linking (bodyNames Quiet)

/-- **A session that is fit to go on**: its scopes are sound, and its module has one of them. -/
structure Fit (s : Session) : Prop where
  sound : s.shared.scopes.Sound
  isModule : s.shared.scopes.IsModule s.draft.scope

/-- What is said of a session, with the names whose typedef is to come, and the names in the types that are still to be
placed. -/
abbrev Claim := List String → List String → Session → Prop

/-- **What is to be shown of a claim**, step by step: `Asked` holds of the typedefs that may be asked for, `Listed` of the
values that may be enumerated, and `Fails` of the failures. -/
structure Rules (P : Claim) (Asked : String → Option String → Prop) (Listed : Node → Prop)
    (Fails : GenerateError → Session → Prop) : Prop where
  dotless : ∀ {name place}, Asked name place → Dotless name
  mono : ∀ {waiting owed owed' s}, P waiting owed s → owed ⊆ owed' → P waiting owed' s
  /-- A warning is given. -/
  warn : ∀ {waiting owed s s'} (message : String), P waiting owed s → Codegen.warn message s = .ok () s' → P waiting owed s'
  /-- A name is entered whose typedef is to come. -/
  enter : ∀ {waiting owed s s' name place d}, Fit s → P waiting owed s → Asked name place →
    place.bind s.definitionAt? = none → Codegen.define name place false s = .ok d s' → P (name :: waiting) owed s'
  /-- A name that is to be entered is taken. -/
  clash : ∀ {waiting owed s s' name place e}, Fit s → P waiting owed s → Asked name place →
    place.bind s.definitionAt? = none → Codegen.define name place false s = .error e s' → Fails e s'
  /-- The definition found for a place is used. -/
  use : ∀ {waiting owed s s' place d name}, Fit s → P waiting owed s → s.definitionAt? place = some d →
    Codegen.nameOf d s = .ok name s' → P waiting (name :: owed) s'
  /-- The typedef of a name is added, and the types in it are placed. -/
  finish : ∀ {waiting owed s s'} {t : Typedef}, P (t.name :: waiting) (t.body.names ++ owed) s →
    Codegen.addTypedef t s = .ok () s' → P waiting owed s'
  /-- A value has no literal. -/
  literal : ∀ {waiting owed s value cause}, P waiting owed s → Listed value → Emit.literal value = .error cause →
    Fails (.unwritable cause) s

/-- **Rules of a claim that has nothing to say of failures**, whatever names without a dot are entered. -/
abbrev FreeRules (P : Claim) : Prop := Rules P (fun name _ => Dotless name) (fun _ => True) fun _ _ => True

/-- Two claims hold together, if one of them has nothing to say of failures. -/
theorem FreeRules.and {P Q : Claim} {Asked : String → Option String → Prop} {Listed : Node → Prop}
    {Fails : GenerateError → Session → Prop} (hP : FreeRules P) (hQ : Rules Q Asked Listed Fails) :
    Rules (fun waiting owed s => P waiting owed s ∧ Q waiting owed s) Asked Listed Fails where
  dotless := hQ.dotless
  mono h hsub := ⟨hP.mono h.1 hsub, hQ.mono h.2 hsub⟩
  warn message h hs := ⟨hP.warn message h.1 hs, hQ.warn message h.2 hs⟩
  enter hfit h hasked hp hs := ⟨hP.enter hfit h.1 (hQ.dotless hasked) hp hs, hQ.enter hfit h.2 hasked hp hs⟩
  clash hfit h hasked hp hs := hQ.clash hfit h.2 hasked hp hs
  use hfit h hp hs := ⟨hP.use hfit h.1 hp hs, hQ.use hfit h.2 hp hs⟩
  finish h hs := ⟨hP.finish h.1 hs, hQ.finish h.2 hs⟩
  literal h hl hs := hQ.literal h.2 hl hs

/-- Whether a computation comes to something good, or fails as it may. -/
def Comes {σ α : Type} (good : α → σ → Prop) (Fails : GenerateError → σ → Prop) :
    EStateM.Result GenerateError σ α → Prop
  | .ok a s => good a s
  | .error e s => Fails e s

theorem Comes.mono {σ α : Type} {good good' : α → σ → Prop} {Fails : GenerateError → σ → Prop}
    {r : EStateM.Result GenerateError σ α} (h : Comes good Fails r) (hgood : ∀ a s, good a s → good' a s) :
    Comes good' Fails r := by
  cases r with
  | ok a s => exact hgood a s h
  | error e s => exact h

/-- **What a computation comes to**: the claim, with the names in its value still to be placed, or a failure. -/
def Ends {α : Type} (P : Claim) (Fails : GenerateError → Session → Prop) (waiting owed : List String)
    (names : α → List String) : EStateM.Result GenerateError Session α → Prop :=
  Comes (fun a s => Fit s ∧ P waiting (names a ++ owed) s) Fails

/-- **What a computation does from a session on**, if the claim holds there with these names to be placed. -/
def DoesAt {α : Type} (P : Claim) (Fails : GenerateError → Session → Prop) (pre : List String) (m : Gen α)
    (names : α → List String) (s : Session) : Prop :=
  ∀ waiting owed, Fit s → P waiting (pre ++ owed) s → Ends P Fails waiting owed names (m s)

/-- **What a computation does**, wherever the claim holds. -/
def Does {α : Type} (P : Claim) (Fails : GenerateError → Session → Prop) (pre : List String) (m : Gen α)
    (names : α → List String) : Prop :=
  ∀ s, DoesAt P Fails pre m names s

variable {α β : Type} {P : Claim} {Asked : String → Option String → Prop} {Listed : Node → Prop}
  {Fails : GenerateError → Session → Prop} {pre waiting owed : List String} {names : α → List String}
  {names' : β → List String} {s s' : Session} {d : Definition} {place : Option String}

/-! ## Fit sessions -/

theorem Fit.warn {message : String} (h : Fit s) (hs : Codegen.warn message s = .ok () s') : Fit s' := by
  cases hs
  exact ⟨h.sound, h.isModule⟩

theorem Fit.addTypedef {t : Typedef} (h : Fit s) (hs : Codegen.addTypedef t s = .ok () s') : Fit s' := by
  cases hs
  exact ⟨h.sound, h.isModule⟩

/-- A session stays fit when its scopes grow soundly. -/
theorem Fit.of_grown {added : Scope.Id → Scope.Table} (h : Fit s) (hsound : s'.shared.scopes.Sound)
    (hg : Tree.Grown s.shared.scopes s'.shared.scopes added) (hscope : s'.draft.scope = s.draft.scope) : Fit s' :=
  ⟨hsound, hscope ▸ (hg.isModule _).2 h.isModule⟩

/-- What a definition does to the scopes. -/
theorem Fit.define {name : String} {isPublic : Bool} (h : Fit s) (hname : Dotless name)
    (hp : place.bind s.definitionAt? = none) (hs : Codegen.define name place isPublic s = .ok d s') : Fit s' := by
  obtain ⟨t, ht, rfl⟩ := Codegen.define_eq_ok hs
  obtain ⟨-, -, -, hg⟩ := h.sound.define_ok h.isModule ht
  exact h.of_grown (h.sound.define h.isModule hname (Codegen.vacant_of_definitionAt? h.sound h.isModule hp) ht) hg rfl

/-- **When a definition meets a conflict**: its name is taken in the module, or its qualified name in the root. -/
theorem Fit.define_cases (h : Fit s) (name : String) (place : Option String) (isPublic : Bool) :
    (∃ c s', Codegen.define name place isPublic s = .error (.conflict c) s' ∧
      (name ∈ (s.shared.scopes.table s.draft.scope).map Symbol.localName ∨
        Tree.qualify (s.shared.scopes.get s.draft.scope).name name ∈ (s.shared.scopes.table 0).map Symbol.localName)) ∨
    (name ∉ (s.shared.scopes.table s.draft.scope).map Symbol.localName ∧
      Tree.qualify (s.shared.scopes.get s.draft.scope).name name ∉ (s.shared.scopes.table 0).map Symbol.localName ∧
      ∃ d s', Codegen.define name place isPublic s = .ok d s') := by
  rw [Codegen.define_eq, h.sound.define_eq h.isModule]
  by_cases hown : s.shared.scopes.taken s.draft.scope name = true
  · rw [if_pos hown]
    exact .inl ⟨_, _, rfl, .inl (Table.taken_eq_true_iff.1 hown)⟩
  · rw [if_neg hown]
    by_cases hroot : s.shared.scopes.taken 0 (Tree.qualify (s.shared.scopes.get s.draft.scope).name name) = true
    · rw [if_pos hroot]
      exact .inl ⟨_, _, rfl, .inr (Table.taken_eq_true_iff.1 hroot)⟩
    · rw [if_neg hroot]
      exact .inr ⟨fun hm => hown (Table.taken_eq_true_iff.2 hm), fun hm => hroot (Table.taken_eq_true_iff.2 hm), _, _, rfl⟩

/-- **What the use of a definition does to a session**: it is imported if need be, and its name may be reported. -/
theorem Fit.use {p name : String} (h : Fit s) (hp : s.definitionAt? p = some d)
    (hs : Codegen.nameOf d s = .ok name s') :
    ∃ t home e, Codegen.Found s.shared.scopes s.draft.scope p d home e ∧
      s.shared.scopes.importSymbol s.draft.scope d.localName none = (t, .ok name) ∧
      s.shared.scopes.Imports t s.draft.scope name d.localName ∧ t.Designates s.draft.scope name home e ∧
      (s' = s.withScopes t ∨ ∃ q, s' = (s.withScopes t).refer name q) := by
  obtain ⟨t, home, e, hf, himport, himports, hdesignates, hreport⟩ := Codegen.nameOf_found h.sound h.isModule hp hs
  exact ⟨t, home, e, hf, himport, himports, hdesignates, Codegen.reportBodiless_cases hreport⟩

theorem Fit.nameOf {p name : String} (h : Fit s) (hp : s.definitionAt? p = some d)
    (hs : Codegen.nameOf d s = .ok name s') : Fit s' := by
  obtain ⟨t, home, e, -, -, himports, -, hs'⟩ := h.use hp hs
  obtain ⟨added, hg, -⟩ := himports.grown
  have hfit : Fit (s.withScopes t) := h.of_grown himports.sound hg rfl
  rcases hs' with rfl | ⟨q, rfl⟩
  · exact hfit
  · exact ⟨hfit.sound, hfit.isModule⟩

/-- Whether the module has a definition of a name, made from the schema at a place. -/
def Entered (s : Session) (name : String) (place : Option String) : Prop :=
  ∃ d, .defined d ∈ s.shared.scopes.table s.draft.scope ∧ d.localName = name ∧ d.specPath = place

/-- **What a definition does to a session**: the module's table gets it, at the end and under a new name. -/
theorem Fit.entered {name : String} {isPublic : Bool} (h : Fit s) (hs : Codegen.define name place isPublic s = .ok d s') :
    ∃ t, s' = s.withScopes t ∧ d.localName = name ∧ d.specPath = place ∧ d.isPublic = isPublic ∧
      t.table s.draft.scope = s.shared.scopes.table s.draft.scope ++ [.defined d] ∧
      name ∉ (s.shared.scopes.table s.draft.scope).map Symbol.localName := by
  obtain ⟨t, ht, rfl⟩ := Codegen.define_eq_ok hs
  obtain ⟨rfl, hfree, -, hg⟩ := h.sound.define_ok h.isModule ht
  refine ⟨t, rfl, rfl, rfl, rfl, ?_, hfree⟩
  rw [hg.table, Tree.definedSymbols, if_pos rfl]

/-- What is found for a place is found after a definition, too. -/
theorem Fit.definitionAt?_define {p name : String} {isPublic : Bool} {d' : Definition} (h : Fit s) (h' : Fit s')
    (hp : s.definitionAt? p = some d) (hs : Codegen.define name place isPublic s = .ok d' s') :
    s'.definitionAt? p = some d := by
  obtain ⟨t, ht, rfl⟩ := Codegen.define_eq_ok hs
  obtain ⟨-, -, -, hg⟩ := h.sound.define_ok h.isModule ht
  exact Codegen.definitionAt?_mono h.sound h.isModule h'.sound hg rfl hp

/-! ## Compound computations -/

theorem Rules.pure (R : Rules P Asked Listed Fails) {a : α} (h : pre ⊆ names a) : Does P Fails pre (pure a) names :=
  fun _ _ _ hfit hP => ⟨hfit, R.mono hP (List.append_subset.2
    ⟨List.subset_append_of_subset_left _ h, List.subset_append_right _ _⟩)⟩

/-- **Two computations in a row**: the names in the value of the first one are still to be placed when the second begins. -/
theorem DoesAt.bind {m : Gen α} {k : α → Gen β} (hm : DoesAt P Fails [] m names s)
    (hk : ∀ a u, m s = .ok a u → DoesAt P Fails (names a ++ pre) (k a) names' u) :
    DoesAt P Fails pre (m >>= k) names' s := by
  intro waiting owed hfit hP
  have h := hm waiting (pre ++ owed) hfit hP
  refine bind_cases (fun a u hr => ?_) fun e u hr => ?_
  · rw [hr] at h
    refine hk a u hr waiting owed h.1 ?_
    rw [List.append_assoc]
    exact h.2
  · rw [hr] at h
    exact h

theorem Does.bind {m : Gen α} {k : α → Gen β} (hm : Does P Fails [] m names)
    (hk : ∀ a, Does P Fails (names a ++ pre) (k a) names') : Does P Fails pre (m >>= k) names' :=
  fun s => (hm s).bind fun a u _ => hk a u

/-- A computation that makes no types. -/
theorem Does.andThen {m : Gen α} {k : α → Gen β} (hm : Does P Fails [] m fun _ => [])
    (hk : ∀ a, Does P Fails pre (k a) names') : Does P Fails pre (m >>= k) names' :=
  hm.bind hk

theorem Does.throw {e : GenerateError} (h : ∀ waiting owed s, P waiting owed s → Fails e s) :
    Does P Fails pre (throw e : Gen α) names :=
  fun _ _ _ _ hP => h _ _ _ hP

theorem Rules.mapM (R : Rules P Asked Listed Fails) {γ : Type} {f : γ → Gen α} : ∀ {xs : List γ},
    (∀ x ∈ xs, Does P Fails [] (f x) names) → Does P Fails [] (xs.mapM f) fun as => as.flatMap names
  | [], _ => by
    rw [List.mapM_nil]
    exact R.pure (List.nil_subset _)
  | x :: xs, h => by
    rw [List.mapM_cons]
    refine (h x List.mem_cons_self).bind fun a =>
      (R.mapM fun y hy => h y (List.mem_cons_of_mem _ hy)).bind fun as => R.pure ?_
    rw [List.append_nil, List.flatMap_cons]
    exact List.append_subset.2 ⟨List.subset_append_right _ _, List.subset_append_left _ _⟩

/-! ## Single steps -/

theorem Rules.does_warn (R : Rules P Asked Listed Fails) (message : String) :
    Does P Fails [] (Codegen.warn message) fun _ => [] :=
  fun _ _ _ hfit hP => ⟨hfit.warn rfl, R.warn message hP rfl⟩

theorem Rules.does_warnIf (R : Rules P Asked Listed Fails) (reason : Bool) (message : String) :
    Does P Fails [] (Codegen.warnIf reason message) fun _ => [] := by
  unfold Codegen.warnIf
  cases reason with
  | true => exact R.does_warn message
  | false => exact R.pure (List.nil_subset _)

/-- **The definition at a place is used**, or what else is to be done is done where there is none. -/
theorem Rules.does_orDefined (R : Rules P Asked Listed Fails) {otherwise : Gen TypeExpr}
    (h : ∀ s, place.bind s.definitionAt? = none → DoesAt P Fails [] otherwise TypeExpr.names s) :
    Does P Fails [] (Codegen.orDefined place otherwise) TypeExpr.names := by
  intro s waiting owed hfit hP
  cases hp : place.bind s.definitionAt? with
  | none =>
    rw [Linking.orDefined_unmade hp]
    exact h s hp waiting owed hfit hP
  | some d =>
    obtain ⟨p, -, hfound⟩ := Linking.exists_place hp
    obtain ⟨name, s', huse⟩ := Codegen.exists_nameOf hfit.sound hfit.isModule hfound
    have hok : Codegen.orDefined place otherwise s = .ok (.named name) s' := by
      rw [Linking.orDefined_made hp]
      exact bind_eq_ok.2 ⟨name, s', huse, rfl⟩
    rw [hok]
    exact ⟨hfit.nameOf hfound huse, R.use hfit hP hfound huse⟩

/-- **A name is defined for a place that has no definition**, and then more is done. -/
theorem Rules.does_define (R : Rules P Asked Listed Fails) {name : String} {k : Definition → Gen α}
    (hasked : Asked name place) (hp : place.bind s.definitionAt? = none) (hfit : Fit s) (hP : P waiting owed s)
    (hk : ∀ d s', Codegen.define name place false s = .ok d s' → Fit s' → P (name :: waiting) owed s' →
      Ends P Fails waiting owed names (k d s')) :
    Ends P Fails waiting owed names ((Codegen.define name place false >>= k) s) := by
  refine bind_cases (fun d s' hd => ?_) fun e s' hd => ?_
  · exact hk d s' hd (hfit.define (R.dotless hasked) hp hd) (R.enter hfit hP hasked hp hd)
  · exact R.clash hfit hP hasked hp hd

/-- **The typedef of a name that was entered is made**, and the types in its body are placed there. -/
theorem Rules.ends_addTypedef (R : Rules P Asked Listed Fails) {t : Typedef} (hfit : Fit s)
    (hP : P (t.name :: waiting) (t.body.names ++ owed) s) :
    Ends P Fails waiting owed (fun _ => []) ((do Codegen.addTypedef t; return t.name : Gen String) s) :=
  ⟨hfit.addTypedef rfl, R.finish hP rfl⟩

section EnterTypedef

variable {name : String} {description : Option String} {body : Gen (Option TypedefBody)}

/-- **A name is entered, and its typedef made**; a name without a typedef body is left. -/
theorem Rules.ends_entry (R : Rules P Asked Listed Fails) (hasked : Asked name place)
    (hp : place.bind s.definitionAt? = none) (hbody : Does P Fails [] body bodyNames) (hquiet : Quiet body)
    (hleave : ∀ waiting owed s, Fit s → Entered s name place → P (name :: waiting) owed s → body s = .ok none s →
      P waiting owed (s.leave name place)) (hfit : Fit s) (hP : P waiting owed s) :
    Ends P Fails waiting owed (fun _ => []) (Codegen.enterTypedef name place description body s) := by
  rw [Codegen.enterTypedef_unmade hp]
  refine R.does_define hasked hp hfit hP fun d s' hd hfit' hP' => ?_
  have hb := hbody s' (name :: waiting) owed hfit' hP'
  refine bind_cases (fun made u hr => ?_) fun e u hr => ?_
  · rw [hr] at hb
    cases made with
    | some b => exact R.ends_addTypedef (t := ⟨name, b, description⟩) hb.1 hb.2
    | none =>
      cases hquiet s' u hr
      have hentered : Entered s' name place := by
        obtain ⟨t, rfl, hlocal, hplace, -, htable, -⟩ := hfit.entered hd
        exact ⟨d, htable ▸ List.mem_append_right _ List.mem_cons_self, hlocal, hplace⟩
      have hend : Ends P Fails waiting owed (fun _ => []) (.ok name (s'.leave name place)) :=
        ⟨⟨hfit'.sound, hfit'.isModule⟩, hleave waiting owed s' hfit' hentered hP' hr⟩
      rw [← Codegen.leave_eq name place s'] at hend
      exact hend
  · rw [hr] at hb
    exact hb

/-- **A name is entered as an alias** of the definition at its place. -/
theorem Rules.ends_alias (R : Rules P Asked Listed Fails) (hasked : Asked name none)
    (hp : place.bind s.definitionAt? = some d) (hfit : Fit s) (hP : P waiting owed s) :
    Ends P Fails waiting owed (fun _ => []) (Codegen.enterTypedef name place description body s) := by
  obtain ⟨p, -, hfound⟩ := Linking.exists_place hp
  rw [Codegen.enterTypedef_made hp]
  refine R.does_define hasked rfl hfit hP fun d' s' hd hfit' hP' => ?_
  have hfound' := hfit.definitionAt?_define hfit' hfound hd
  obtain ⟨target, u, huse⟩ := Codegen.exists_nameOf hfit'.sound hfit'.isModule hfound'
  have hend : Ends P Fails waiting owed (fun _ => []) ((do
      Codegen.addTypedef ⟨name, .synonym (.named target), description⟩
      return name : Gen String) u) :=
    R.ends_addTypedef (hfit'.nameOf hfound' huse) (R.use hfit' hP' hfound' huse)
  have hrest : (do
      let target ← Codegen.nameOf d
      Codegen.addTypedef ⟨name, .synonym (.named target), description⟩
      return name : Gen String) s' = (do
      Codegen.addTypedef ⟨name, .synonym (.named target), description⟩
      return name : Gen String) u := bind_of_eq_ok huse
  exact hrest ▸ hend

end EnterTypedef

end Making
end TypedClient
