import TypedClient.Proofs.Making.Asking
import TypedClient.Proofs.Making.Runs
/-!
# Clashes — when a single operation meets a conflict

In a module that holds nothing but its class and the import of the client class (`Bare`), an operation whose objects are declared
on the spot (`Inline`) can meet itself only.  So it meets a conflict exactly if two of the names that its objects ask for
are the same, which is when labels are (`clash_iff_labels_meet`).
-/
namespace TypedClient
namespace Making

open Codegen (Session Workspace)
open Operation (Spec)
open Scope (Symbol Tree)

variable {settings : Settings} {shared : Workspace} {s : Session} {c name : String} {spec : Spec}

/-! ## Bare modules -/

/-- **A module that holds nothing but its class and the import of the client class**; another module that is called like it
holds nothing at all. -/
structure Bare (c : String) (s : Session) : Prop where
  fit : Fit s
  table : (s.shared.scopes.table s.draft.scope).map Symbol.localName = ["Client", c]
  alone : ∀ home ≠ 0, home ≠ s.draft.scope →
    (s.shared.scopes.get home).name = (s.shared.scopes.get s.draft.scope).name → s.shared.scopes.table home = []

theorem Bare.taken_iff (h : Bare c s) (hname : Dotless name) : Taken s name ↔ name = "Client" ∨ name = c := by
  have hown : name ∈ (s.shared.scopes.table s.draft.scope).map Symbol.localName ↔ name = "Client" ∨ name = c := by
    rw [h.table, List.mem_cons, List.mem_singleton]
  refine ⟨fun htaken => htaken.elim hown.1 fun hroot => ?_, fun hor => .inl (hown.2 hor)⟩
  obtain ⟨symbol, hsymbol, hlocal⟩ := List.mem_map.1 hroot
  obtain ⟨home, h0, d, hd, rfl⟩ := h.fit.sound.copies _ hsymbol
  obtain ⟨hscope, rfl⟩ := Tree.qualify_inj (h.fit.sound.dotless home h0 _ hd) hname hlocal
  -- what the root knows under the qualified name is defined in a module of that name
  by_cases hhome : home = s.draft.scope
  · subst hhome
    exact hown.1 (List.mem_map.2 ⟨_, hd, rfl⟩)
  · rw [h.alone home h0 hhome hscope] at hd
    cases hd

/-- **A class is opened in a bare module**, where no module before it is called like it. -/
theorem Opened.bare (h : Opened settings c shared s)
    (halone : ∀ home ≠ 0, (shared.scopes.get home).name = c → shared.scopes.table home = []) : Bare c s := by
  obtain ⟨d, htable, hlocal, -, -⟩ := h.table
  refine ⟨h.fit, ?_, fun home h0 hne hname => ?_⟩
  · rw [htable, ← hlocal]
    rfl
  · rw [h.since.scope] at hne
    rw [h.since.name, h.since.name, h.since.scope, get_begun, get_begun, if_pos rfl, if_neg hne] at hname
    rw [h.since.table h0 hne, table_begun]
    exact halone home h0 hname

/-- The module of a class before its methods are made, in a run without component schemas. -/
def classAlone (settings : Settings) (c : String) : Session :=
  match classWork c [] (begun settings c (Linking.World.definitions settings).session.shared) with
  | .ok _ s | .error _ s => s

section Alone

variable (settings) (hname : Dotless c) (hclient : c ≠ "Client") (hmodule : c ≠ "client")
include hname hclient hmodule

theorem opened_classAlone :
    Opened settings c (Linking.World.definitions settings).session.shared (classAlone settings c) := by
  unfold classAlone
  rcases (ready_definitions settings).open settings hname [] with ⟨s, k, -, hwhy⟩ | ⟨-, -, s, hopened, hwork⟩
  · rcases hwhy with hwhy | hwhy
    · exact absurd hwhy hclient
    · have hlocal : Tree.qualify c c = Tree.qualify "client" "Client" := List.mem_singleton.1 hwhy
      exact absurd (Tree.qualify_inj hname (by decide) hlocal).1 hmodule
  · rw [hwork]
    exact hopened

theorem bare_classAlone : Bare c (classAlone settings c) := by
  refine (opened_classAlone settings hname hclient hmodule).bare fun home h0 heq => ?_
  match home, h0, heq with
  | 0, h0, _ => exact absurd rfl h0
  | 1, _, heq => exact absurd heq.symm hmodule
  | 2, _, _ => rfl
  | _ + 3, _, _ => rfl

theorem vacant_classAlone (place : Option String) : (classAlone settings c).shared.scopes.Vacant place := by
  have h := opened_classAlone settings hname hclient hmodule
  obtain ⟨own, htable, -, -, hplace⟩ := h.table
  intro home h0 d hd p _ hp
  by_cases hhome : home = (classAlone settings c).draft.scope
  · rw [hhome, htable] at hd
    rcases List.mem_cons.1 hd with hd | hd
    · cases hd
    · cases List.mem_singleton.1 hd
      exact nomatch hplace.symm.trans hp
  · rw [h.since.scope] at hhome
    rw [h.since.table h0 hhome, table_begun] at hd
    match home, h0, hd with
    | 0, h0, _ => exact h0 rfl
    | 1, _, hd =>
      cases List.mem_singleton.1 hd
      cases hp
    | 2, _, hd => cases hd
    | _ + 3, _, hd => cases hd

end Alone

/-! ## Objects declared on the spot -/

/-- **Whether the objects of an operation are declared on the spot**: nothing else asks for a name, no definition is made from
any place yet, and no object that asks for a name is met again. -/
structure Inline (spec : Spec) (s : Session) : Prop where
  objects : ∀ need ∈ spec.needs, Operation.isObject need.1 = false → Schema.askedByItems? need.1 (some need.2) = none
  vacant : ∀ p ∈ placesOf spec.needs, s.shared.scopes.Vacant (some p)
  once : ∀ a ∈ askedBy spec.needs, ∀ p, a.2 = some p → (placesOf spec.needs).count p ≤ 1

theorem Inline.of_nodup
    (hobjects : ∀ need ∈ spec.needs, Operation.isObject need.1 = false → Schema.askedByItems? need.1 (some need.2) = none)
    (hvacant : ∀ place, s.shared.scopes.Vacant place) (hplaces : (placesOf spec.needs).Nodup) : Inline spec s :=
  ⟨hobjects, fun _ _ => hvacant _, fun _ _ p _ => List.nodup_iff_count_le_one.1 hplaces p⟩

theorem names_askedBy {needs : List (Option Schema × String)}
    (h : ∀ need ∈ needs, Operation.isObject need.1 = false → Schema.askedByItems? need.1 (some need.2) = none) :
    (askedBy needs).map (·.1) = (needs.filter fun need => Operation.isObject need.1).map (·.2) := by
  induction needs with
  | nil => rfl
  | cons need rest ih =>
    obtain ⟨schema, name⟩ := need
    have hrest := ih fun need hm => h need (List.mem_cons_of_mem _ hm)
    have hone := h _ List.mem_cons_self
    unfold askedBy at hrest ⊢
    rw [List.filterMap_cons, List.filter_cons]
    cases ho : Operation.isObject schema with
    | false =>
      rw [ho] at hone
      rw [hone rfl]
      exact hrest
    | true =>
      match schema, ho with
      | some (.object info properties required), _ => exact congrArg (name :: ·) hrest

/-- The names that objects ask for are neither qualified, nor that of the client class. -/
theorem of_mem_objectNames (h : name ∈ spec.objectNames) : Dotless name ∧ name ≠ "Client" := by
  obtain ⟨⟨schema, n⟩, hneed, rfl⟩ := List.mem_map.1 h
  obtain ⟨hmem, hobject⟩ := List.mem_filter.1 hneed
  match schema, hobject with
  | some schema, _ =>
    have hneeds := Spec.needs_of_mem hmem
    refine ⟨hneeds.plain.dotless, ?_⟩
    rintro rfl
    exact absurd hneeds.length_le (by decide)

theorem Bare.free_iff (h : Bare c s) (hclass : c ∉ spec.objectNames) :
    Free s spec.objectNames ↔ spec.objectNames.Nodup := by
  refine ⟨Free.nodup, fun hnodup => ⟨hnodup, fun n hn htaken => ?_⟩⟩
  obtain ⟨hdotless, hclient⟩ := of_mem_objectNames hn
  rcases (h.taken_iff hdotless).1 htaken with rfl | rfl
  · exact hclient rfl
  · exact hclass hn

/-! ## Single operations -/

/-- **An operation is generated only if the names that its objects ask for are free**, and then they are taken; a conflict says
that they are not. -/
theorem generate_asks (h : Bare c s) (hinline : Inline spec s) :
    Comes (fun _ t => Free s spec.objectNames ∧ ∀ n, Taken t n ↔ Taken s n ∨ n ∈ spec.objectNames)
      (fun e _ => ∀ k, e = .conflict k → ¬ Free s spec.objectNames) (Operation.generate spec s) := by
  have hasks := serves_generate spec s h.fit hinline.vacant hinline.once
  have hnames : (askedBy spec.needs).map (·.1) = spec.objectNames := names_askedBy hinline.objects
  rw [hnames] at hasks
  refine hasks.mono fun _ t ⟨hfree, hoccupies⟩ => ⟨hfree, fun n => ?_⟩
  rw [hoccupies.taken, hnames]

/-- An operation that can become a method fails for nothing but a conflict, where all values can be written. -/
theorem generate_ends (hfit : Fit s) (hgenerable : spec.Generable)
    (hwritable : ∀ need ∈ spec.needs, ∀ value ∈ Schema.listedByItems need.1, ∃ text, Emit.literal value = .ok text) :
    Comes (fun _ _ => True) (fun e _ => ∃ k, e = .conflict k) (Operation.generate spec s) := by
  have R : Rules (fun _ _ _ => True) (fun name _ => Dotless name) (fun value => ∃ text, Emit.literal value = .ok text)
      fun e _ => ∃ k, e = .conflict k :=
    { dotless := id
      mono := fun _ _ => trivial
      warn := fun _ _ _ => trivial
      enter := fun _ _ _ _ _ => trivial
      clash := fun _ _ _ _ hs => by
        obtain ⟨t, k, -, -, rfl⟩ := Codegen.define_eq_error hs
        exact ⟨k, rfl⟩
      use := fun _ _ _ _ => trivial
      finish := fun _ _ => trivial
      literal := fun _ ⟨text, htext⟩ herror => nomatch htext.symm.trans herror }
  have hends : ∀ waiting owed, MethodEnds _ _ waiting owed (Operation.generate spec s) := fun waiting owed =>
    R.does_generate (fun schema name hneeds => ⟨(allowed_of_needs hneeds).asked, hwritable _ hneeds.mem_needs⟩)
      (fun hbad => absurd hgenerable hbad) hfit trivial
  exact (hends [] []).mono fun _ _ _ => trivial

/-- **When a single operation meets a conflict.**  The names that the objects of any operation ask for are different exactly if
their labels are; status codes, ranges and the default never make labels the same, but the media types of one response may.  In
a module of its own, where its objects are inline ones, the operation meets no conflict if the names are different, and they are
the names that are defined; if they are not, there is one, or the operation fails for another reason. -/
theorem clash_iff_labels_meet (spec : Spec) :
    (spec.objectNames.Nodup ↔ spec.Labelled) ∧
    (∀ responses, (spec.operation.get? "responses").bind Node.entries? = some responses → (responses.map (·.1)).Nodup →
      Emit.WellDeclared (responses.map (·.1)) → ((responses.flatMap Operation.answerLabels).Nodup ↔
        ∀ answer ∈ responses, ((Operation.objectTypes answer.2).map Naming.mediaLabel).Nodup)) ∧
    ∀ (c : String) (s : Session), Bare c s → Inline spec s → c ∉ spec.objectNames →
      (∀ m t, Operation.generate spec s = .ok m t →
        spec.objectNames.Nodup ∧ ∀ n, Taken t n ↔ Taken s n ∨ n ∈ spec.objectNames) ∧
      (spec.objectNames.Nodup → ∀ k t, Operation.generate spec s ≠ .error (.conflict k) t) ∧
      (spec.Generable →
        (∀ need ∈ spec.needs, ∀ value ∈ Schema.listedByItems need.1, ∃ text, Emit.literal value = .ok text) →
        (spec.objectNames.Nodup → ∃ m t, Operation.generate spec s = .ok m t) ∧
        (¬ spec.objectNames.Nodup → ∃ k t, Operation.generate spec s = .error (.conflict k) t)) := by
  refine ⟨Operation.nodup_objectNames_iff spec, fun responses _ hkeys hdeclared =>
    Operation.nodup_bodyLabels_iff hkeys hdeclared, fun c s hbare hinline hclass => ?_⟩
  have hasks := generate_asks hbare hinline
  rw [hbare.free_iff hclass] at hasks
  refine ⟨fun m t hok => ?_, fun hnodup k t herror => ?_, fun hgenerable hwritable => ?_⟩
  · rwa [hok] at hasks
  · rw [herror] at hasks
    exact hasks k rfl hnodup
  · have hends := generate_ends hbare.fit hgenerable hwritable
    cases hr : Operation.generate spec s with
    | ok m t =>
      rw [hr] at hasks
      exact ⟨fun _ => ⟨m, t, rfl⟩, fun hnot => absurd hasks.1 hnot⟩
    | error e t =>
      rw [hr] at hasks hends
      obtain ⟨k, rfl⟩ := hends
      exact ⟨fun hnodup => absurd hnodup (hasks k rfl), fun _ => ⟨k, t, rfl⟩⟩

/-- A schema at a place: an object of two numbers. -/
def rangeNode (place : String) : Node :=
  .map (some place) [("type", .str "object"), ("properties", .map (some (place ++ "/properties"))
    [("from", .map (some (place ++ "/properties/from")) [("type", .str "integer")]),
     ("to", .map (some (place ++ "/properties/to")) [("type", .str "integer")])])]

/-- A parameter of that type. -/
def rangeParameter (place name location : String) : Node :=
  .map (some place) [("name", .str name), ("in", .str location), ("schema", rangeNode (place ++ "/schema"))]

/-- A media type for bodies of that type. -/
def rangeMedia (place contentType : String) : String × Node :=
  (contentType, .map (some (place ++ contentType)) [("schema", rangeNode (place ++ contentType ++ "/schema"))])

/-- A search with an object at every place where an operation may have one. -/
def rangeSearch : Spec :=
  ⟨"/things", "get", .map none
    [("parameters", .list none [rangeParameter "#/0" "page-size" "query", rangeParameter "#/1" "age" "header"]),
     ("requestBody", .map none [("content", .map none [rangeMedia "#/request/" "application/json"])]),
     ("responses", .map none
       [("200", .map none [("content", .map none
          [rangeMedia "#/200/" "application/json", rangeMedia "#/200/" "application/xml"])]),
        ("default", .map none [("content", .map none [rangeMedia "#/default/" "application/json"])])])], .map none []⟩

theorem rangeSearch_made : Bare "DefaultApi" (classAlone default "DefaultApi") ∧
    Inline rangeSearch (classAlone default "DefaultApi") ∧ rangeSearch.objectNames =
      ["ThingsGetPageSizeParameter", "ThingsGetAgeParameter", "ThingsGetRequest", "ThingsGetSuccessJsonResponse",
        "ThingsGetSuccessXmlResponse", "ThingsGetDefaultResponse"] ∧
    rangeSearch.Labelled ∧ rangeSearch.Generable ∧
    ∃ m t, Operation.generate rangeSearch (classAlone default "DefaultApi") = .ok m t := by
  have hbare := bare_classAlone default (c := "DefaultApi") (by decide) (by decide) (by decide)
  have hvacant := vacant_classAlone default (c := "DefaultApi") (by decide) (by decide) (by decide)
  have hinline : Inline rangeSearch (classAlone default "DefaultApi") :=
    .of_nodup (by decide +kernel) hvacant (by decide +kernel)
  have hnames : rangeSearch.objectNames = ["ThingsGetPageSizeParameter", "ThingsGetAgeParameter", "ThingsGetRequest",
      "ThingsGetSuccessJsonResponse", "ThingsGetSuccessXmlResponse", "ThingsGetDefaultResponse"] := by
    decide +kernel
  have hnodup : rangeSearch.objectNames.Nodup := hnames ▸ by decide
  have hgenerable : rangeSearch.Generable := by
    have hholes : Emit.placeholders rangeSearch.path = [] := by decide
    have hall : ∀ body ∈ Operation.bodies (((rangeSearch.operation.get? "responses").bind Node.entries?).getD []),
        (Operation.unwrap? (Operation.mediaSchema body.2.2) body.2.2).isOk = true := by
      decide +kernel
    refine ⟨⟨_, rfl, fun hole hm => ?_⟩, fun responses hr body hbody => ?_⟩
    · rw [hholes] at hm
      cases hm
    · rw [hr] at hall
      have hok := hall body hbody
      cases hu : Operation.unwrap? (Operation.mediaSchema body.2.2) body.2.2 with
      | ok found => exact ⟨found, rfl⟩
      | error e =>
        rw [hu] at hok
        cases hok
  have hwritable : ∀ need ∈ rangeSearch.needs, ∀ value ∈ Schema.listedByItems need.1,
      ∃ text, Emit.literal value = .ok text := by
    have hnone : ∀ need ∈ rangeSearch.needs, (Schema.listedByItems need.1).isEmpty = true := by decide +kernel
    intro need hneed value hvalue
    rw [List.isEmpty_iff.1 (hnone need hneed)] at hvalue
    cases hvalue
  obtain ⟨hlabelled, -, hmodule⟩ := clash_iff_labels_meet rangeSearch
  obtain ⟨-, -, hends⟩ := hmodule "DefaultApi" _ hbare hinline (hnames ▸ by decide)
  exact ⟨hbare, hinline, hnames, hlabelled.1 hnodup, hgenerable, (hends hgenerable hwritable).1 hnodup⟩

/-- A search by a range, with another one in a header of the same name. -/
def ageTwice : Spec :=
  ⟨"/things", "get", .map none [("parameters", .list none
    [rangeParameter "#/0" "age" "query", rangeParameter "#/1" "age" "header"]), ("responses", .map none [])], .map none []⟩

/-- **Two parameters of one name are two parameters, but their types are named for the name alone.** -/
theorem ageTwice_clashes : Bare "DefaultApi" (classAlone default "DefaultApi") ∧
    Inline ageTwice (classAlone default "DefaultApi") ∧
    ageTwice.objectNames = ["ThingsGetAgeParameter", "ThingsGetAgeParameter"] ∧
    ∃ t, Operation.generate ageTwice (classAlone default "DefaultApi") =
      .error (.conflict ⟨"ThingsGetAgeParameter", "DefaultApi"⟩) t := by
  have hvacant := vacant_classAlone default (c := "DefaultApi") (by decide) (by decide) (by decide)
  refine ⟨bare_classAlone default (by decide) (by decide) (by decide),
    .of_nodup (by decide +kernel) hvacant (by decide +kernel), by decide +kernel, ?_⟩
  have hfails : (match Operation.generate ageTwice (classAlone default "DefaultApi") with
      | .ok .. => none
      | .error e _ => some e) = some (.conflict ⟨"ThingsGetAgeParameter", "DefaultApi"⟩) := by
    decide +kernel
  cases hr : Operation.generate ageTwice (classAlone default "DefaultApi") with
  | ok m t =>
    rw [hr] at hfails
    cases hfails
  | error e t =>
    rw [hr] at hfails
    cases hfails
    exact ⟨t, rfl⟩

end Making
end TypedClient
