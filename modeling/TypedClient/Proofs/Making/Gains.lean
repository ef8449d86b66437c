import TypedClient.Proofs.Making.Feasible
/-!
# Gains — what the making of a type gives its module

A module **gains** definitions, typedefs and warnings, and what it gains in a row adds up (`Gained.trans`, `GivesAt.bind`).
What a type gives is a typedef at most, for the name that it is asked under (`gives_typeOf`).  What the body of a component's
typedef gives is so a typedef at most for each member of a merge (`gives_bodyOf`), and what the entry of a name gives is its
definition, what the body gives, and behind that the typedef, or else a warning that there is none (`givesAt_entry`).
-/
namespace TypedClient

open Codegen (Session Gen)
open Emit (TypeExpr Typedef TypedefBody)
open Scope (Definition Symbol Tree)

namespace Schema

/-- The names that schemas ask for as members of a merge, from a number on. -/
def memberNamesFrom (name : String) : Nat → List Schema → List String
  | _, [] => []
  | index, schema :: rest =>
    ((schema.asked? (some (name ++ "UnionMember" ++ toString index))).map (·.1)).toList ++ memberNamesFrom name (index + 1) rest

/-- **The names that the members of a schema ask for**, if it is a merge that has a name. -/
def memberNames (name : String) : Schema → List String
  | .merge _ members => memberNamesFrom name 0 members
  | _ => []

end Schema

namespace Making

open Linking (bodilessText referralText Quiet)

variable {α β : Type} {s t u : Session} {m : Gen α} {k : α → Gen β} {name : String} {place : Option String} {d : Definition}
  {asked more : List String}

/-! ## Gains -/

/-- What a module gains: names that it defines, names of typedefs, and warnings. -/
structure Gain where
  defined : List String
  typedefs : List String
  warnings : List String

/-- One gain after another. -/
instance : Append Gain :=
  ⟨fun g h => ⟨g.defined ++ h.defined, g.typedefs ++ h.typedefs, g.warnings ++ h.warnings⟩⟩

/-- **What a module has gained** from one session to a later one. -/
structure Gained (g : Gain) (s t : Session) : Prop where
  defined : definedNames t = definedNames s ++ g.defined
  typedefs : t.draft.typedefs.map (·.name) = s.draft.typedefs.map (·.name) ++ g.typedefs
  warnings : t.shared.warnings = s.shared.warnings ++ g.warnings

theorem Gained.refl (s : Session) : Gained ⟨[], [], []⟩ s s :=
  ⟨(List.append_nil _).symm, (List.append_nil _).symm, (List.append_nil _).symm⟩

theorem Gained.trans {g g' : Gain} (h : Gained g s t) (h' : Gained g' t u) : Gained (g ++ g') s u where
  defined := by rw [h'.defined, h.defined, List.append_assoc]; rfl
  typedefs := by rw [h'.typedefs, h.typedefs, List.append_assoc]; rfl
  warnings := by rw [h'.warnings, h.warnings, List.append_assoc]; rfl

/-- **What a computation gives the module** from a session on, if it does not fail. -/
def GivesAt (q : Gain → Prop) (m : Gen α) (s : Session) : Prop :=
  Fit s → Comes (fun _ t => Fit t ∧ ∃ g, q g ∧ Gained g s t) (fun _ _ => True) (m s)

/-- What a computation gives the module wherever it begins. -/
def Gives (q : Gain → Prop) (m : Gen α) : Prop :=
  ∀ s, GivesAt q m s

variable {p q r : Gain → Prop}

theorem GivesAt.mono (h : GivesAt q m s) (hp : ∀ g, q g → p g) : GivesAt p m s :=
  fun hfit => (h hfit).mono fun _ _ ⟨hfit', g, hg, hgained⟩ => ⟨hfit', g, hp g hg, hgained⟩

/-- **One computation after another** gives both gains. -/
theorem GivesAt.bind (hm : GivesAt q m s) (hk : ∀ a u, m s = .ok a u → Fit u → GivesAt p (k a) u)
    (hr : ∀ g g', q g → p g' → r (g ++ g')) : GivesAt r (m >>= k) s := by
  intro hfit
  have h := hm hfit
  refine bind_cases (fun a u hrun => ?_) fun e u _ => trivial
  rw [hrun] at h
  obtain ⟨hfit', g, hg, hgained⟩ := h
  exact (hk a u hrun hfit' hfit').mono fun _ _ ⟨hfit'', g', hg', hgained'⟩ =>
    ⟨hfit'', g ++ g', hr g g' hg hg', hgained.trans hgained'⟩

theorem Gives.bind (hm : Gives q m) (hk : ∀ a, Gives p (k a)) (hr : ∀ g g', q g → p g' → r (g ++ g')) :
    Gives r (m >>= k) :=
  fun s => (hm s).bind (fun a u _ _ => hk a u) hr

theorem gives_pure (a : α) (hq : q ⟨[], [], []⟩) : Gives q (pure a : Gen α) :=
  fun s hfit => ⟨hfit, _, hq, .refl s⟩

theorem gives_throw (e : GenerateError) : Gives q (throw e : Gen α) :=
  fun _ _ => trivial

/-! ## Warnings -/

/-- The warning of a component that is no schema. -/
def skippedText (key : String) : String :=
  "Skipping component schema '" ++ key ++ "': not a schema object"

/-- Whether a warning tells of something else than a component without a typedef. -/
def Remark (message : String) : Prop :=
  (∀ name place, message ≠ bodilessText name place) ∧ ∀ key, message ≠ skippedText key

theorem head?_append_text {front : String} (hne : front.toList ≠ []) (back : String) :
    (front ++ back).toList.head? = front.toList.head? := by
  rw [String.toList_append, List.head?_append_of_ne_nil _ hne]

theorem head?_bodilessText (name place : String) : (bodilessText name place).toList.head? = some 'N' := by
  unfold bodilessText
  rewrite [String.append_assoc, String.append_assoc, String.append_assoc, head?_append_text (by decide)]
  decide +kernel

theorem head?_skippedText (key : String) : (skippedText key).toList.head? = some 'S' := by
  unfold skippedText
  rewrite [String.append_assoc, head?_append_text (by decide)]
  decide +kernel

theorem bodilessText_ne_skippedText (name place key : String) : bodilessText name place ≠ skippedText key := by
  intro heq
  have hhead := head?_bodilessText name place
  rw [heq, head?_skippedText] at hhead
  exact absurd hhead (by decide)

/-- The two warnings begin like no other. -/
theorem remark_of_head {message : String} {c : Char} (h : message.toList.head? = some c) (hc : c ≠ 'N' ∧ c ≠ 'S') :
    Remark message := by
  refine ⟨fun name place heq => hc.1 ?_, fun key heq => hc.2 ?_⟩
  · rw [heq, head?_bodilessText] at h
    exact (Option.some.inj h).symm
  · rw [heq, head?_skippedText] at h
    exact (Option.some.inj h).symm

theorem remark_referralText (localName file : String) : Remark (referralText localName file) := by
  refine remark_of_head (c := '\'') ?_ (by decide)
  unfold referralText
  rewrite [String.append_assoc, String.append_assoc, String.append_assoc, head?_append_text (by decide)]
  decide +kernel

/-- The warning of a reference that is not followed. -/
def unresolvedText (pointer : String) : String :=
  "Unresolved cyclic reference " ++ pointer ++ " resolved as 'any'"

theorem remark_unresolvedText (pointer : String) : Remark (unresolvedText pointer) := by
  refine remark_of_head (c := 'U') ?_ (by decide)
  unfold unresolvedText
  rewrite [String.append_assoc, head?_append_text (by decide)]
  decide +kernel

/-! ## Single steps -/

theorem gives_warn (message : String) : Gives (· = ⟨[], [], [message]⟩) (Codegen.warn message) :=
  fun _ hfit => ⟨hfit.warn rfl, _, rfl, (List.append_nil _).symm, (List.append_nil _).symm, rfl⟩

theorem gives_addTypedef (t : Typedef) : Gives (· = ⟨[], [t.name], []⟩) (Codegen.addTypedef t) := by
  refine fun s hfit => ⟨hfit.addTypedef rfl, _, rfl, (List.append_nil _).symm, ?_, (List.append_nil _).symm⟩
  exact List.map_append

theorem definedNames_append {table : Scope.Table}
    (ht : t.shared.scopes.table t.draft.scope = s.shared.scopes.table s.draft.scope ++ table) :
    definedNames t = definedNames s ++ (table.filterMap Symbol.definition?).map (·.localName) := by
  rw [definedNames, ht, List.filterMap_append, List.map_append]
  rfl

theorem givesAt_define (hname : Dotless name) (hp : place.bind s.definitionAt? = none) :
    GivesAt (· = ⟨[name], [], []⟩) (Codegen.define name place false) s := by
  intro hfit
  cases hd : Codegen.define name place false s with
  | error e u => trivial
  | ok d u =>
    have hfit' := hfit.define hname hp hd
    obtain ⟨tree, rfl, rfl, -, -, htable, -⟩ := hfit.entered hd
    have hdefined : definedNames (s.withScopes tree) = definedNames s ++ [d.localName] :=
      definedNames_append (t := s.withScopes tree) htable
    exact ⟨hfit', _, rfl, hdefined, (List.append_nil _).symm, (List.append_nil _).symm⟩

/-- **The use of a definition** gives a remark at most. -/
theorem givesAt_nameOf {p : String} (hp : s.definitionAt? p = some d) :
    GivesAt (fun g => ∃ remarks, g = ⟨[], [], remarks⟩ ∧ ∀ message ∈ remarks, Remark message) (Codegen.nameOf d) s := by
  intro hfit
  cases hr : Codegen.nameOf d s with
  | error e u => trivial
  | ok name u =>
    have hfit' := hfit.nameOf hp hr
    obtain ⟨tree, home, e, -, -, himports, -, hu⟩ := hfit.use hp hr
    obtain ⟨added, hg, hadded⟩ := himports.grown
    -- the scope gets an import at most
    have hnone : (added s.draft.scope).filterMap Symbol.definition? = [] :=
      List.filterMap_eq_nil_iff.2 fun symbol hsymbol => by rw [(hadded _ symbol hsymbol).2]; rfl
    have hdefined : definedNames (s.withScopes tree) = definedNames s ++ [] := by
      rw [definedNames_append (t := s.withScopes tree) (hg.table s.draft.scope), hnone]
      rfl
    rcases hu with rfl | ⟨q, rfl⟩
    · exact ⟨hfit', _, ⟨[], rfl, nofun⟩, hdefined, (List.append_nil _).symm, (List.append_nil _).symm⟩
    · exact ⟨hfit', _, ⟨[_], rfl, List.forall_mem_singleton.2 (remark_referralText name s.draft.filename)⟩, hdefined,
        (List.append_nil _).symm, rfl⟩

/-! ## Types -/

/-- **What the making of types gives**: typedefs for names that are asked for, each with its definition, and remarks. -/
structure Fills (asked : List String) (g : Gain) : Prop where
  typedefs : g.typedefs = g.defined
  defined : g.defined.Sublist asked
  remarks : ∀ message ∈ g.warnings, Remark message

theorem fills_remarks {remarks : List String} (h : ∀ message ∈ remarks, Remark message) : Fills asked ⟨[], [], remarks⟩ :=
  ⟨rfl, List.nil_sublist asked, h⟩

theorem fills_nothing : Fills asked ⟨[], [], []⟩ :=
  fills_remarks nofun

theorem Fills.append {g g' : Gain} (h : Fills asked g) (h' : Fills more g') : Fills (asked ++ more) (g ++ g') where
  typedefs := congrArg₂ (· ++ ·) h.typedefs h'.typedefs
  defined := h.defined.append h'.defined
  remarks := List.forall_mem_append.2 ⟨h.remarks, h'.remarks⟩

theorem Gives.then (hm : Gives (Fills asked) m) (hk : ∀ a, Gives (Fills more) (k a)) :
    Gives (Fills (asked ++ more)) (m >>= k) :=
  hm.bind hk fun _ _ => Fills.append

theorem Gives.finish (hm : Gives (Fills asked) m) (hk : ∀ a, Gives (Fills []) (k a)) : Gives (Fills asked) (m >>= k) :=
  List.append_nil asked ▸ hm.then hk

theorem gives_mapM {γ : Type} {f : γ → Gen α} (h : ∀ x, Gives (Fills []) (f x)) : ∀ xs : List γ, Gives (Fills []) (xs.mapM f)
  | [] => by
    rw [List.mapM_nil]
    exact gives_pure _ fills_nothing
  | x :: xs => by
    rw [List.mapM_cons]
    exact (h x).finish fun a => (gives_mapM h xs).finish fun as => gives_pure _ fills_nothing

theorem gives_enumerationType (values : List Node) : Gives (Fills []) (Codegen.enumerationType values) := by
  unfold Codegen.enumerationType
  split
  · exact gives_pure _ fills_nothing
  · refine Gives.finish (gives_mapM (fun value => ?_) values) fun types => gives_pure _ fills_nothing
    split
    · exact gives_pure _ fills_nothing
    · exact gives_throw _

/-- The definition at a place is used, with a remark at most, or else what is done otherwise is done. -/
theorem gives_orDefined {otherwise : Gen TypeExpr}
    (h : ∀ s, place.bind s.definitionAt? = none → GivesAt (Fills asked) otherwise s) :
    Gives (Fills asked) (Codegen.orDefined place otherwise) := by
  intro s
  cases hp : place.bind s.definitionAt? with
  | none =>
    intro hfit
    rw [Linking.orDefined_unmade hp]
    exact h s hp hfit
  | some d =>
    obtain ⟨p, -, hfound⟩ := Linking.exists_place hp
    intro hfit
    rw [Linking.orDefined_made hp]
    refine (givesAt_nameOf hfound).bind (fun name u _ _ => gives_pure _ (q := Fills []) fills_nothing u) ?_ hfit
    rintro _ g' ⟨remarks, rfl, hremarks⟩ hg'
    have hused : Fills asked ⟨[], [], remarks⟩ := fills_remarks hremarks
    exact List.append_nil asked ▸ hused.append hg'

section Entries

variable {description : Option String} {body : Gen (Option TypedefBody)}

/-- What the body of a typedef gives, and the typedef behind it; or a warning, if there is none. -/
def BodyGain (asked : List String) (name : String) (place : Option String) (bodiless : Prop) (g : Gain) : Prop :=
  (∃ members remarks, g = ⟨members, members ++ [name], remarks⟩ ∧ members.Sublist asked ∧
    ∀ message ∈ remarks, Remark message) ∨
  bodiless ∧ g = ⟨[], [], [bodilessText name (Codegen.showPlace place)]⟩

/-- **What the entry of a name gives**: its definition, and then its body. -/
def EntryGain (asked : List String) (name : String) (place : Option String) (bodiless : Prop) (g : Gain) : Prop :=
  ∃ g', BodyGain asked name place bodiless g' ∧ g = ⟨[name], [], []⟩ ++ g'

theorem gives_body (hbody : Gives (Fills asked) body) (hquiet : Quiet body) :
    Gives (BodyGain asked name place (∃ u, body u = .ok none u)) (do
      match ← body with
      | some body => Codegen.addTypedef ⟨name, body, description⟩
      | none =>
        match place with
        | some place => Codegen.markBodiless place
        | none => pure ()
        Codegen.warn ("No typedef body generated for '" ++ name ++ "' (" ++ Codegen.showPlace place ++ ")")
      return name : Gen String) := by
  intro s hfit
  have h := hbody s hfit
  refine bind_cases (fun made u hrun => ?_) fun e u _ => trivial
  rw [hrun] at h
  cases made with
  | some b =>
    obtain ⟨hfit', g, hg, hgained⟩ := h
    refine ⟨hfit'.addTypedef rfl, ⟨g.defined, g.defined ++ [name], g.warnings⟩,
      .inl ⟨_, _, rfl, hg.defined, hg.remarks⟩, hgained.defined, ?_, hgained.warnings⟩
    have htypedefs : (u.draft.typedefs ++ [(⟨name, b, description⟩ : Typedef)]).map (·.name) =
        s.draft.typedefs.map (·.name) ++ (g.defined ++ [name]) := by
      rw [List.map_append, hgained.typedefs, hg.typedefs, List.append_assoc]
      rfl
    exact htypedefs
  | none =>
    cases hquiet s u hrun
    have hend : Comes (fun _ t => Fit t ∧ ∃ g, BodyGain asked name place (∃ u, body u = .ok none u) g ∧ Gained g s t)
        (fun _ _ => True) (.ok name (s.leave name place)) :=
      ⟨⟨hfit.sound, hfit.isModule⟩, _, .inr ⟨⟨s, hrun⟩, rfl⟩, (List.append_nil _).symm, (List.append_nil _).symm, rfl⟩
    rw [← Codegen.leave_eq name place s] at hend
    exact hend

/-- A name is entered for a place without a definition. -/
theorem givesAt_entry (hname : Dotless name) (hp : place.bind s.definitionAt? = none) (hbody : Gives (Fills asked) body)
    (hquiet : Quiet body) : GivesAt (EntryGain asked name place (∃ u, body u = .ok none u))
      (Codegen.enterTypedef name place description body) s := by
  intro hfit
  rw [Codegen.enterTypedef_unmade hp]
  refine (givesAt_define hname hp).bind (fun _ u _ _ => gives_body hbody hquiet u) ?_ hfit
  rintro _ g' rfl hg'
  exact ⟨g', hg', rfl⟩

/-- A name is entered as an alias. -/
theorem givesAt_alias (hname : Dotless name) (hp : place.bind s.definitionAt? = some d) {bodiless : Prop} :
    GivesAt (EntryGain asked name place bodiless) (Codegen.enterTypedef name place description body) s := by
  obtain ⟨p, -, hfound⟩ := Linking.exists_place hp
  intro hfit
  rw [Codegen.enterTypedef_made hp]
  have hnone : (none : Option String).bind s.definitionAt? = none := rfl
  refine (givesAt_define hname hnone).bind (p := BodyGain asked name place bodiless) (fun d' u hd hfit' => ?_) ?_ hfit
  · have hfound' := hfit.definitionAt?_define hfit' hfound hd
    refine (givesAt_nameOf hfound').bind (p := (· = ⟨[], [name], []⟩)) (fun target v _ _ => ?_) ?_
    · refine Gives.bind (gives_addTypedef _) (fun _ => gives_pure name (q := (· = ⟨[], [], []⟩)) rfl) ?_ v
      rintro _ _ rfl rfl
      rfl
    · rintro _ _ ⟨remarks, rfl, hremarks⟩ rfl
      exact .inl ⟨[], remarks ++ [], rfl, List.nil_sublist asked, by rwa [List.append_nil]⟩
  · rintro _ g' rfl hg'
    exact ⟨g', hg', rfl⟩

end Entries

/-- The name of an object is filled with its typedef. -/
theorem givesAt_object {description : Option String} {properties : List (String × Schema)} {required : List String}
    (hname : Dotless name) (hp : place.bind s.definitionAt? = none)
    (hfields : Gives (Fills []) (Codegen.fieldsOf required properties)) :
    GivesAt (Fills [name]) (Codegen.enterTypedef name place description
      (do return some (.object (← Codegen.fieldsOf required properties)))) s := by
  have hbody : Gives (Fills []) (do return some (.object (← Codegen.fieldsOf required properties)) : Gen (Option TypedefBody)) :=
    hfields.finish fun fields => gives_pure _ fills_nothing
  refine (givesAt_entry hname hp hbody Linking.quiet_some).mono ?_
  rintro _ ⟨_, ⟨members, remarks, rfl, hmembers, hremarks⟩ | ⟨⟨u, hnone⟩, -⟩, rfl⟩
  · cases List.sublist_nil.1 hmembers
    exact ⟨rfl, List.Sublist.refl _, hremarks⟩
  · exact absurd hnone (Linking.ne_none_of_some u u)

open Schema in
mutual
/-- **What the type of a schema gives**: a typedef for the name that it asks for, at most. -/
theorem gives_typeOf : ∀ (schema : Schema) {name : Option String}, (∀ n, name = some n → Dotless n) →
    Gives (Fills ((schema.asked? name).map (·.1)).toList) (Codegen.typeOf schema name)
  | .reference pointer, name, _ => by
    unfold Codegen.typeOf
    refine gives_orDefined fun s _ => ?_
    refine Gives.bind (gives_warn _) (fun _ => gives_pure _ (q := Fills []) fills_nothing) ?_ s
    rintro _ g' rfl hg'
    have hwarned : Fills [] ⟨[], [], [unresolvedText pointer]⟩ :=
      fills_remarks (List.forall_mem_singleton.2 (remark_unresolvedText pointer))
    exact hwarned.append hg'
  | .merge info members, name, _ => by
    unfold Codegen.typeOf
    refine gives_orDefined fun s _ => ?_
    split
    · exact gives_pure _ fills_nothing s
    · exact (gives_typesOf members).finish (fun types => gives_pure _ fills_nothing) s
  | .array info items, name, hname => by
    unfold Codegen.typeOf
    refine gives_orDefined fun s _ => (gives_itemType items fun n hn => ?_).finish (fun type => gives_pure _ fills_nothing) s
    obtain ⟨short, hshort, rfl⟩ := Option.map_eq_some_iff.1 hn
    exact (hname short hshort).append (by decide)
  | .object info properties required, name, hname => by
    unfold Codegen.typeOf
    refine gives_orDefined fun s hp => ?_
    cases name with
    | none => exact gives_pure _ fills_nothing s
    | some name =>
      refine (givesAt_object (hname name rfl) hp (gives_fieldsOf required properties)).bind
        (fun made u _ _ => gives_pure _ (q := Fills []) fills_nothing u) fun g g' hg hg' => ?_
      have h : Fills ([name] ++ []) (g ++ g') := hg.append hg'
      exact h
  | .enumeration info type values, name, _ => by
    unfold Codegen.typeOf
    exact gives_orDefined fun s _ => gives_enumerationType values s
  | .primitive info types, name, _ => by
    unfold Codegen.typeOf
    exact gives_orDefined fun s _ => gives_pure _ fills_nothing s
  | .untyped info, name, _ => by
    unfold Codegen.typeOf
    exact gives_orDefined fun s _ => gives_pure _ fills_nothing s

theorem gives_itemType : ∀ (items : Option Schema) {name : Option String}, (∀ n, name = some n → Dotless n) →
    Gives (Fills ((askedByItems? items name).map (·.1)).toList) (Codegen.itemType items name)
  | some schema, name, hname => by
    unfold Codegen.itemType
    exact gives_typeOf schema hname
  | none, name, _ => by
    unfold Codegen.itemType
    exact gives_pure _ fills_nothing

theorem gives_typesOf : ∀ schemas : List Schema, Gives (Fills []) (Codegen.typesOf schemas)
  | [] => by
    unfold Codegen.typesOf
    exact gives_pure _ fills_nothing
  | schema :: rest => by
    have hfirst : Gives (Fills ((schema.asked? none).map (·.1)).toList) (Codegen.typeOf schema none) := gives_typeOf schema nofun
    rw [schema.asked?_none] at hfirst
    unfold Codegen.typesOf
    exact hfirst.then fun type => (gives_typesOf rest).finish fun types => gives_pure _ fills_nothing

theorem gives_fieldsOf (required : List String) : ∀ properties : List (String × Schema),
    Gives (Fills []) (Codegen.fieldsOf required properties)
  | [] => by
    unfold Codegen.fieldsOf
    exact gives_pure _ fills_nothing
  | (name, schema) :: rest => by
    have hfirst : Gives (Fills ((schema.asked? none).map (·.1)).toList) (Codegen.typeOf schema none) := gives_typeOf schema nofun
    rw [schema.asked?_none] at hfirst
    unfold Codegen.fieldsOf
    exact hfirst.then fun type => (gives_fieldsOf required rest).finish fun fields => gives_pure _ fills_nothing
end

theorem gives_memberTypes (hname : Dotless name) : ∀ (index : Nat) (schemas : List Schema),
    Gives (Fills (Schema.memberNamesFrom name index schemas)) (Codegen.memberTypes name index schemas)
  | _, [] => gives_pure _ fills_nothing
  | index, schema :: rest => by
    have hmember : ∀ n, some (name ++ "UnionMember" ++ toString index) = some n → Dotless n := by
      rintro n ⟨⟩
      exact (hname.append (by decide)).append (dotless_toString index)
    unfold Codegen.memberTypes
    exact (gives_typeOf schema hmember).then fun type =>
      (gives_memberTypes hname (index + 1) rest).finish fun types => gives_pure _ fills_nothing

theorem gives_scalarBody {type : Gen TypeExpr} (h : Gives (Fills []) type) : Gives (Fills []) (Codegen.scalarBody type) := by
  intro s
  have hbody : Gives (Fills []) (do return some (.synonym (← type)) : Gen (Option TypedefBody)) :=
    h.finish fun t => gives_pure _ fills_nothing
  intro hfit
  rw [Linking.scalarBody_eq]
  split
  · exact hbody s hfit
  · exact ⟨hfit, _, fills_nothing, .refl s⟩

/-- **What the body of the typedef of a component gives**: typedefs for its members, if it is a merge. -/
theorem gives_bodyOf (hname : Dotless name) (schema : Schema) :
    Gives (Fills (schema.memberNames name)) (Codegen.bodyOf name schema) := by
  cases schema with
  | reference pointer => exact gives_pure _ fills_nothing
  | object info properties required => exact (gives_fieldsOf required properties).finish fun fields => gives_pure _ fills_nothing
  | array info items =>
    have hitem : Gives (Fills ((Schema.askedByItems? items none).map (·.1)).toList) (Codegen.itemType items none) :=
      gives_itemType items nofun
    rw [Schema.askedByItems?_none] at hitem
    exact hitem.finish fun item => gives_pure _ fills_nothing
  | merge info members => exact (gives_memberTypes hname 0 members).finish fun types => gives_pure _ fills_nothing
  | enumeration info type values =>
    change Gives (Fills []) (if type = "string" then _ else _)
    split
    · refine Gives.finish (gives_mapM (fun value => ?_) values) fun texts => gives_pure _ fills_nothing
      split
      · exact gives_pure _ fills_nothing
      · exact gives_throw _
    · exact gives_scalarBody (gives_enumerationType values)
  | primitive info types => exact gives_scalarBody (gives_pure _ fills_nothing)
  | untyped info => exact gives_scalarBody (gives_pure _ fills_nothing)

end Making
end TypedClient
