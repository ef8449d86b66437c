import Mathlib.Logic.Relation
import TypedClient.Proofs.Linking.Designation
import TypedClient.Proofs.Steps
/-!
# Moments — what a run does to its modules, one thing at a time

A run is seen as a path of worlds.  A world is the module in the making with what all modules share, and the modules before it.
An act is one thing that the module does: it enters a name, uses a definition, finishes a typedef, adds a method (`Act`).
Between two modules the next one is begun (`Step`).

Two lists are kept for the proofs only.  A name waits from its entry until its typedef is there; and the names that were made or
came out of a lookup are handed out, so that a typedef or a method may refer to them.
-/
namespace TypedClient

open Codegen (Session Draft Workspace)
open Scope (Definition Table Symbol Tree)

/-- The names of typedefs in the body of a typedef. -/
def Emit.TypedefBody.names (body : Emit.TypedefBody) : List String :=
  body.types.flatMap Emit.TypeExpr.names

/-- The names of typedefs in the arguments and the return type of a method. -/
def Emit.Method.names (m : Emit.Method) : List String :=
  m.arguments.flatMap (·.type.names) ++ m.returnType.names

namespace Linking

/-- The warning of a module that refers to a name without a typedef. -/
def referralText (localName file : String) : String :=
  "'" ++ localName ++ "' in " ++ file ++
    " refers to a name without a typedef body; enable alias_scalar_typedefs to emit it"

/-- Whether a warning is one of those: no other starts with a quote. -/
def isReferral (message : String) : Bool :=
  message.toList.head? == some '\''

/-- The warning of a name that gets no typedef. -/
def bodilessText (name place : String) : String :=
  "No typedef body generated for '" ++ name ++ "' (" ++ place ++ ")"

theorem isReferral_append {a : String} (b : String) (ha : a.toList ≠ []) : isReferral (a ++ b) = isReferral a := by
  unfold isReferral
  rw [String.toList_append, List.head?_append_of_ne_nil _ ha]

theorem isReferral_referralText (localName file : String) : isReferral (referralText localName file) = true := by
  unfold referralText
  rw [String.append_assoc, String.append_assoc, String.append_assoc, isReferral_append _ (by decide)]
  decide

theorem isReferral_bodilessText (name place : String) : isReferral (bodilessText name place) = false := by
  unfold bodilessText
  rw [String.append_assoc, String.append_assoc, String.append_assoc, isReferral_append _ (by decide)]
  decide

/-- **A moment of a run.** -/
structure World where
  /-- The modules that are done. -/
  earlier : List Draft
  session : Session
  /-- The names in the module whose typedef is in the making. -/
  waiting : List String
  /-- The names that the module may refer to. -/
  handed : List String

namespace World

variable (w : World)

/-- The scopes at a moment. -/
abbrev scopes : Tree := w.session.shared.scopes

/-- The scope of the module in the making. -/
abbrev scope : Scope.Id := w.session.draft.scope

/-- All modules, the one in the making at the end. -/
def drafts : List Draft := w.earlier ++ [w.session.draft]

/-- Whether a place has no definition yet, as far as the module sees. -/
def Unmade (place : Option String) : Prop := place.bind w.session.definitionAt? = none

end World

/-- **One thing that a module does.** -/
inductive Act : World → World → Prop where
  /-- It warns of something else than a reference to a name without a typedef. -/
  | warn {w : World} {s : Session} (message : String) (hm : isReferral message = false)
    (h : Codegen.warn message w.session = .ok () s) : Act w { w with session := s }
  /-- It enters a name whose typedef is to come. -/
  | enter {w : World} {s : Session} {d : Definition} (name : String) (place : Option String) (hn : Dotless name)
    (hp : w.Unmade place) (h : Codegen.define name place false w.session = .ok d s) :
    Act w { w with session := s, waiting := name :: w.waiting, handed := name :: w.handed }
  /-- It enters a name that gets no typedef. -/
  | leave {w : World} {s : Session} (name : String) (place description : Option String) (hn : Dotless name)
    (hp : w.Unmade place) (h : Codegen.enterTypedef name place description (pure none) w.session = .ok name s) :
    Act w { w with session := s }
  /-- It uses the definition found for a place. -/
  | use {w : World} {s : Session} {d : Definition} {name : String} (place : String)
    (hp : w.session.definitionAt? place = some d) (h : Codegen.nameOf d w.session = .ok name s) :
    Act w { w with session := s, handed := name :: w.handed }
  /-- It adds the typedef that a name waits for. -/
  | finish {w : World} {s : Session} (t : Emit.Typedef) (ht : t.name ∈ w.waiting) (hnames : t.body.names ⊆ w.handed)
    (h : Codegen.addTypedef t w.session = .ok () s) :
    Act w { w with session := s, waiting := w.waiting.erase t.name }
  /-- It adds a method. -/
  | method {w : World} {s : Session} (m : Emit.Method) (hnames : m.names ⊆ w.handed)
    (h : Codegen.addMethod m w.session = .ok () s) : Act w { w with session := s }
  /-- It imports the class that its class extends. -/
  | client {w : World} {s : Session} {name : String}
    (h : Codegen.importSymbol Scope.clientSymbol (some "Client") w.session = .ok name s) : Act w { w with session := s }
  /-- It defines its class. -/
  | publish {w : World} {s : Session} {d : Definition} (name : String) (hn : Dotless name)
    (h : Codegen.define name none true w.session = .ok d s) : Act w { w with session := s }

/-- What a module does in a row. -/
abbrev Acts : World → World → Prop := Relation.ReflTransGen Act

/-- The world in which a module is begun. -/
def World.next (w : World) (filename name : String) (apiName : Option String) (aliasScalars : Bool) : World :=
  { earlier := w.drafts
    session :=
      { shared := { w.session.shared with scopes := (w.scopes.addScope 0 name (some filename)).1 }
        draft := ⟨filename, w.scopes.scopes.length, apiName, aliasScalars, [], [], []⟩ }
    waiting := []
    handed := [] }

/-- **From one moment to the next**: the module does something, or another one is begun when nothing waits. -/
inductive Step : World → World → Prop where
  | act {w v : World} (h : Act w v) : Step w v
  | next {w : World} (filename name : String) (apiName : Option String) (aliasScalars : Bool) (hw : w.waiting = []) :
    Step w (w.next filename name apiName aliasScalars)

/-- One moment comes after another, or is the same. -/
abbrev Reaches : World → World → Prop := Relation.ReflTransGen Step

/-- **What is left of a failing run**: a definition that met a conflict, and may stay in the module alone. -/
inductive Breaks (w : World) : Session → Prop where
  | mk {s : Session} {e : GenerateError} (name : String) (place : Option String) (isPublic : Bool) (hn : Dotless name)
    (hp : w.Unmade place) (h : Codegen.define name place isPublic w.session = .error e s) : Breaks w s

theorem Acts.reaches {w v : World} (h : Acts w v) : Reaches w v :=
  Relation.ReflTransGen.mono (fun _ _ hact => Step.act hact) _ _ h

theorem Act.earlier {w v : World} (h : Act w v) : v.earlier = w.earlier := by
  cases h <;> rfl

theorem Act.handed {w v : World} (h : Act w v) : w.handed ⊆ v.handed := by
  cases h
  case enter => exact List.subset_cons_self _ _
  case use => exact List.subset_cons_self _ _
  all_goals exact List.Subset.refl _

theorem Acts.handed {w v : World} (h : Acts w v) : w.handed ⊆ v.handed := by
  induction h with
  | refl => exact List.Subset.refl _
  | tail _ hact ih => exact List.Subset.trans ih hact.handed

theorem Acts.earlier {w v : World} (h : Acts w v) : v.earlier = w.earlier := by
  induction h with
  | refl => rfl
  | tail _ hact ih => exact hact.earlier.trans ih

end Linking

/-! ## What an act does to a session -/

namespace Codegen

open Linking (referralText bodilessText)

variable {s s' : Session} {name source : String} {place description : Option String} {isPublic : Bool} {d : Definition}

/-- A session with other scopes. -/
def Session.withScopes (s : Session) (t : Tree) : Session :=
  { s with shared := { s.shared with scopes := t } }

theorem define_eq (name : String) (place : Option String) (isPublic : Bool) (s : Session) :
    define name place isPublic s = match s.shared.scopes.define s.draft.scope name place isPublic with
      | (t, .ok d) => .ok d (s.withScopes t)
      | (t, .error c) => .error (.conflict c) (s.withScopes t) := by
  have hget : (get : Gen Session) s = .ok s s := rfl
  unfold define
  rw [bind_of_eq_ok hget]
  cases s.shared.scopes.define s.draft.scope name place isPublic with
  | mk t result => cases result <;> rfl

theorem define_eq_ok (h : define name place isPublic s = .ok d s') :
    ∃ t, s.shared.scopes.define s.draft.scope name place isPublic = (t, .ok d) ∧ s' = s.withScopes t := by
  rw [define_eq] at h
  cases hd : s.shared.scopes.define s.draft.scope name place isPublic with
  | mk t result =>
    rw [hd] at h
    cases result with
    | ok _ =>
      cases h
      exact ⟨t, rfl, rfl⟩
    | error _ => cases h

theorem define_eq_error {e : GenerateError} (h : define name place isPublic s = .error e s') :
    ∃ t c, s.shared.scopes.define s.draft.scope name place isPublic = (t, .error c) ∧ s' = s.withScopes t ∧
      e = .conflict c := by
  rw [define_eq] at h
  cases hd : s.shared.scopes.define s.draft.scope name place isPublic with
  | mk t result =>
    rw [hd] at h
    cases result with
    | ok _ => cases h
    | error c =>
      cases h
      exact ⟨t, c, rfl, rfl, rfl⟩

theorem importSymbol_eq (source : String) (wanted : Option String) (s : Session) :
    importSymbol source wanted s = match s.shared.scopes.importSymbol s.draft.scope source wanted with
      | (t, .ok name) => .ok name (s.withScopes t)
      | (t, .error c) => .error (.conflict c) (s.withScopes t) := by
  have hget : (get : Gen Session) s = .ok s s := rfl
  unfold importSymbol
  rw [bind_of_eq_ok hget]
  cases s.shared.scopes.importSymbol s.draft.scope source wanted with
  | mk t result => cases result <;> rfl

theorem importSymbol_eq_ok {wanted : Option String} (h : importSymbol source wanted s = .ok name s') :
    ∃ t, s.shared.scopes.importSymbol s.draft.scope source wanted = (t, .ok name) ∧ s' = s.withScopes t := by
  rw [importSymbol_eq] at h
  cases hd : s.shared.scopes.importSymbol s.draft.scope source wanted with
  | mk t result =>
    rw [hd] at h
    cases result with
    | ok _ =>
      cases h
      exact ⟨t, rfl, rfl⟩
    | error _ => cases h

/-- A session in which the module has warned of a name for a place. -/
def Session.refer (s : Session) (localName place : String) : Session :=
  { shared := { s.shared with warnings := s.shared.warnings ++ [referralText localName s.draft.filename] }
    draft := { s.draft with reported := s.draft.reported ++ [place] } }

/-- **A module warns of a name once, if its definition has no typedef.** -/
theorem reportBodiless_eq (localName : String) (d : Definition) (s : Session) :
    reportBodiless localName d s = .ok () (match d.specPath with
      | some place =>
        if s.shared.bodiless.contains place && !s.draft.reported.contains place then s.refer localName place else s
      | none => s) := by
  cases d with
  | mk _ _ specPath _ _ =>
    cases specPath with
    | none => rfl
    | some place =>
      change (if (s.shared.bodiless.contains place && !s.draft.reported.contains place) = true then _ else _ : Gen Unit) s
        = .ok () (if _ then _ else _)
      split
      · rfl
      · rfl

/-- A session in which a name was left without a typedef. -/
def Session.leave (s : Session) (name : String) (place : Option String) : Session :=
  { s with shared :=
    { s.shared with
      bodiless := match place with
        | some p => if s.shared.bodiless.contains p then s.shared.bodiless else s.shared.bodiless ++ [p]
        | none => s.shared.bodiless
      warnings := s.shared.warnings ++ [bodilessText name (showPlace place)] } }

theorem Session.mem_leave (s : Session) (name p : String) : p ∈ (s.leave name (some p)).shared.bodiless := by
  change p ∈ if s.shared.bodiless.contains p then _ else _
  split
  · rename_i h
    exact List.contains_iff_mem.1 h
  · exact List.mem_append_right _ List.mem_cons_self

theorem Session.mem_bodiless_leave {p : String} (h : p ∈ (s.leave name place).shared.bodiless) :
    p ∈ s.shared.bodiless ∨ place = some p := by
  cases place with
  | none => exact .inl h
  | some q =>
    change p ∈ if s.shared.bodiless.contains q then _ else _ at h
    split at h
    · exact .inl h
    · rw [List.mem_append, List.mem_singleton] at h
      exact h.imp_right fun hpq => by rw [hpq]

theorem Session.bodiless_subset_leave (s : Session) (name : String) (place : Option String) :
    s.shared.bodiless ⊆ (s.leave name place).shared.bodiless := by
  cases place with
  | none => exact List.Subset.refl _
  | some q =>
    intro p hp
    change p ∈ if s.shared.bodiless.contains q then _ else _
    split
    · exact hp
    · exact List.mem_append_left _ hp

/-- Looking up the definition for a place changes nothing. -/
theorem definition?_eq_ok {d : Option Definition} (h : place.bind s.definitionAt? = d) : definition? place s = .ok d s := by
  rw [← h]
  rfl

/-- Entering a name for a place without a definition defines it and makes its typedef. -/
theorem enterTypedef_unmade {body : Gen (Option Emit.TypedefBody)} (hp : place.bind s.definitionAt? = none) :
    enterTypedef name place description body s = (do
      let _ ← define name place false
      match ← body with
      | some body => addTypedef ⟨name, body, description⟩
      | none =>
        match place with
        | some place => markBodiless place
        | none => pure ()
        warn ("No typedef body generated for '" ++ name ++ "' (" ++ showPlace place ++ ")")
      return name : Gen String) s := by
  unfold enterTypedef
  exact bind_of_eq_ok (definition?_eq_ok hp)

/-- Entering a name for a place that has a definition makes an alias. -/
theorem enterTypedef_made {body : Gen (Option Emit.TypedefBody)} (hp : place.bind s.definitionAt? = some d) :
    enterTypedef name place description body s = (do
      let _ ← define name none false
      let target ← nameOf d
      addTypedef ⟨name, .synonym (.named target), description⟩
      return name : Gen String) s := by
  unfold enterTypedef
  exact bind_of_eq_ok (definition?_eq_ok hp)

theorem leave_eq (name : String) (place : Option String) (s : Session) :
    (do
      match place with
      | some place => markBodiless place
      | none => pure ()
      warn ("No typedef body generated for '" ++ name ++ "' (" ++ showPlace place ++ ")")
      return name : Gen String) s = .ok name (s.leave name place) := by
  cases place with
  | none => rfl
  | some p =>
    have hmark : markBodiless p s = .ok () (if s.shared.bodiless.contains p then s
        else { s with shared := { s.shared with bodiless := s.shared.bodiless ++ [p] } }) := rfl
    by_cases h : s.shared.bodiless.contains p = true
    · rw [if_pos h] at hmark
      simp only [bind, EStateM.bind, hmark, Session.leave, h, if_true]
      rfl
    · rw [if_neg h] at hmark
      simp only [bind, EStateM.bind, hmark, Session.leave, h]
      rfl

theorem enterTypedef_none_eq_ok (hp : place.bind s.definitionAt? = none)
    (h : enterTypedef name place description (pure none) s = .ok name s') :
    ∃ t d, s.shared.scopes.define s.draft.scope name place false = (t, .ok d) ∧ s' = (s.withScopes t).leave name place := by
  rw [enterTypedef_unmade hp] at h
  obtain ⟨d, u, hd, h⟩ := bind_eq_ok.1 h
  obtain ⟨t, ht, rfl⟩ := define_eq_ok hd
  rw [pure_bind] at h
  have hleave := leave_eq name place (s.withScopes t)
  exact ⟨t, d, ht, by cases h.symm.trans hleave; rfl⟩

theorem nameOf_eq_ok (h : nameOf d s = .ok name s') :
    ∃ t, s.shared.scopes.importSymbol s.draft.scope d.localName none = (t, .ok name) ∧
      reportBodiless name d (s.withScopes t) = .ok () s' := by
  unfold nameOf at h
  obtain ⟨n, u, himport, h⟩ := bind_eq_ok.1 h
  obtain ⟨t, ht, rfl⟩ := importSymbol_eq_ok himport
  obtain ⟨_, v, hreport, h⟩ := bind_eq_ok.1 h
  obtain ⟨rfl, rfl⟩ := pure_eq_ok.1 h
  exact ⟨t, ht, hreport⟩

/-- **What the use of a definition does**: it is imported if need be, and its name may be reported. -/
theorem nameOf_found {p : String} (hs : s.shared.scopes.Sound) (hm : s.shared.scopes.IsModule s.draft.scope)
    (hp : s.definitionAt? p = some d) (h : nameOf d s = .ok name s') :
    ∃ t home e, Found s.shared.scopes s.draft.scope p d home e ∧
      s.shared.scopes.importSymbol s.draft.scope d.localName none = (t, .ok name) ∧
      s.shared.scopes.Imports t s.draft.scope name d.localName ∧ t.Designates s.draft.scope name home e ∧
      reportBodiless name d (s.withScopes t) = .ok () s' := by
  obtain ⟨t, himport, hreport⟩ := nameOf_eq_ok h
  obtain ⟨home, e, hf⟩ := found_of_definitionAt? hs hm hp
  obtain ⟨t', name', himport', himports, hdesignates⟩ := hf.importSymbol hs hm
  cases himport.symm.trans himport'
  exact ⟨t, home, e, hf, himport, himports, hdesignates, hreport⟩

/-- **A definition that is found can be used.** -/
theorem exists_nameOf {p : String} (hs : s.shared.scopes.Sound) (hm : s.shared.scopes.IsModule s.draft.scope)
    (hp : s.definitionAt? p = some d) : ∃ name s', nameOf d s = .ok name s' := by
  obtain ⟨home, e, hf⟩ := found_of_definitionAt? hs hm hp
  obtain ⟨t, name, himport, -⟩ := hf.importSymbol hs hm
  have h1 : importSymbol d.localName none s = .ok name (s.withScopes t) := by
    rw [importSymbol_eq, himport]
  have h2 := reportBodiless_eq name d (s.withScopes t)
  unfold nameOf
  exact ⟨name, _, bind_eq_ok.2 ⟨name, _, h1, bind_eq_ok.2 ⟨(), _, h2, rfl⟩⟩⟩

/-- A session in which a name was reported to have no typedef, if that was due. -/
theorem reportBodiless_cases (h : reportBodiless name d s = .ok () s') : s' = s ∨ ∃ p, s' = s.refer name p := by
  cases h.symm.trans (reportBodiless_eq name d s)
  cases d.specPath with
  | none => exact .inl rfl
  | some p =>
    dsimp only
    split
    · exact .inr ⟨p, rfl⟩
    · exact .inl rfl

end Codegen
end TypedClient
