import TypedClient.Proofs.Making.Types
import TypedClient.Proofs.Response.Dispatch
import TypedClient.Proofs.Script.Templates
/-!
# Methods — what the making of methods keeps

A method needs the types of the parameters of its operation, of the body of the request and of the bodies of the responses,
each under a name made from that of the operation (`Spec.Needs`).  They are made within the rules, and the names in them are
those of the method that is added at last (`Rules.does_generate`).  Whether there is a method does not depend on what the
module holds, a clash of names apart: `Spec.Generable` says what is asked of the operation itself.
-/
namespace TypedClient

open Codegen (Session Gen)
open Emit (TypeExpr Argument Method Unwrapping)

namespace Operation

/-- The schema of a media type. -/
def mediaSchema (media : Node) : Option Schema :=
  (media.get? "schema").bind Schema.read?

/-- The name for the type of a parameter. -/
def parameterType (operationName : String) (p : Parameter) : String :=
  Text.capitalize operationName ++ Naming.typeName p.name ++ "Parameter"

/-- The name for the type of the body of a request. -/
def requestType (operationName : String) : String :=
  Text.capitalize operationName ++ "Request"

/-- The name for the type of the body of a response. -/
def responseType (operationName status : String) (several : Bool) (contentType : String) : String :=
  Text.capitalize operationName ++ (Naming.statusLabel status ++ (if several then Naming.mediaLabel contentType else "")) ++
    "Response"

/-- **The types that the method of an operation needs**: their schemas, and the names for them. -/
inductive Spec.Needs (spec : Spec) : Option Schema → String → Prop where
  | parameter {declared : List Parameter} {p : Parameter} (hd : spec.parameters = .ok declared) (hp : p ∈ declared) :
    spec.Needs ((p.node.get? "schema").bind Schema.read?) (parameterType spec.name p)
  | body {node : Node}
    (h : mediaSchema? ((spec.operation.get? "requestBody").getD .null) "application/json" = some node) :
    spec.Needs (Schema.read? node) (requestType spec.name)
  | response {responses content : List (String × Node)} {key contentType : String} {answer media : Node}
    {found : Option (String × Option Schema × List Schema.Step)}
    (hr : (spec.operation.get? "responses").bind Node.entries? = some responses) (ha : (key, answer) ∈ responses)
    (hc : (answer.get? "content").bind Node.entries? = some content) (hm : (contentType, media) ∈ content)
    (hmap : media.isMap = true) (hu : unwrap? (mediaSchema media) media = .ok found) :
    spec.Needs (returned (mediaSchema media) found) (responseType spec.name key (content.length > 1) contentType)

/-- **Whether an operation can become a method**, as far as it is up to itself: its parameters can be read, every
placeholder of its path is one of them, and the bodies of its responses can be unwrapped. -/
structure Spec.Generable (spec : Spec) : Prop where
  filled : ∃ declared, spec.parameters = .ok declared ∧
    ∀ hole ∈ Emit.placeholders spec.path, ∃ p ∈ declared, p.name = hole
  unwrapped : ∀ responses, (spec.operation.get? "responses").bind Node.entries? = some responses →
    ∀ body ∈ bodies responses, ∃ found, unwrap? (mediaSchema body.2.2) body.2.2 = .ok found

section Plain

variable {operationName : String}

theorem plain_parameterType (h : Naming.Plain operationName) (p : Parameter) :
    Naming.Plain (parameterType operationName p) :=
  ((Naming.plain_capitalize h).append (Naming.plain_sanitize _)).append (by decide)

theorem plain_requestType (h : Naming.Plain operationName) : Naming.Plain (requestType operationName) :=
  (Naming.plain_capitalize h).append (by decide)

theorem plain_responseType (h : Naming.Plain operationName) (key : String) (several : Bool) (contentType : String) :
    Naming.Plain (responseType operationName key several contentType) := by
  refine ((Naming.plain_capitalize h).append ((Naming.plain_statusLabel _).append ?_)).append (by decide)
  split
  · exact Naming.plain_mediaLabel _
  · decide

end Plain

/-- The names for the types of an operation have the characters of an identifier only. -/
theorem Spec.Needs.plain {spec : Spec} {schema : Option Schema} {name : String} (h : spec.Needs schema name) :
    Naming.Plain name := by
  cases h with
  | parameter hd hp => exact plain_parameterType spec.plain_name _
  | body h => exact plain_requestType spec.plain_name
  | response hr ha hc hm hmap hu => exact plain_responseType spec.plain_name _ _ _

/-- The names for the types of an operation are longer than that of the client class. -/
theorem Spec.Needs.length_le {spec : Spec} {schema : Option Schema} {name : String} (h : spec.Needs schema name) :
    7 ≤ name.length := by
  have hback : ∀ (front back : String), 7 ≤ back.length → 7 ≤ (front ++ back).length := by
    intro front back hlength
    rw [String.length_append]
    omega
  cases h with
  | parameter _ _ => exact hback _ _ (by decide)
  | body _ => exact hback _ _ (by decide)
  | response _ _ _ _ _ _ => exact hback _ _ (by decide)

/-- The types that an operation needs, in a list: the schemas, and the names for them. -/
def Spec.needs (spec : Spec) : List (Option Schema × String) :=
  let declared := match spec.parameters with
    | .ok declared => declared
    | .error _ => []
  let ofResponse (answer : String × Node) : List (Option Schema × String) :=
    let content := ((answer.2.get? "content").bind Node.entries?).getD []
    content.filterMap fun (contentType, media) =>
      match unwrap? (mediaSchema media) media with
      | .ok found =>
        some (returned (mediaSchema media) found, responseType spec.name answer.1 (content.length > 1) contentType)
      | .error _ => none
  declared.map (fun p => ((p.node.get? "schema").bind Schema.read?, parameterType spec.name p)) ++
    (mediaSchema? ((spec.operation.get? "requestBody").getD .null) "application/json").toList.map
      (fun node => (Schema.read? node, requestType spec.name)) ++
    (((spec.operation.get? "responses").bind Node.entries?).getD []).flatMap ofResponse

/-- Every type that an operation needs is in the list. -/
theorem Spec.Needs.mem_needs {spec : Spec} {schema : Option Schema} {name : String} (h : spec.Needs schema name) :
    (schema, name) ∈ spec.needs := by
  unfold Spec.needs
  dsimp only
  rw [List.mem_append, List.mem_append]
  cases h with
  | parameter hd hp =>
    rw [hd]
    exact .inl (.inl (List.mem_map.2 ⟨_, hp, rfl⟩))
  | body hb =>
    rw [hb]
    exact .inl (.inr List.mem_cons_self)
  | response hr ha hc hm hmap hu =>
    rw [hr]
    refine .inr (List.mem_flatMap.2 ⟨_, ha, ?_⟩)
    rw [hc]
    refine List.mem_filterMap.2 ⟨_, hm, ?_⟩
    dsimp only
    rw [hu]
    rfl

/-- Every type in the list that has a schema is needed. -/
theorem Spec.needs_of_mem {spec : Spec} {schema : Schema} {name : String} (h : (some schema, name) ∈ spec.needs) :
    spec.Needs (some schema) name := by
  unfold Spec.needs at h
  dsimp only at h
  rw [List.mem_append, List.mem_append] at h
  rcases h with (h | h) | h
  · obtain ⟨p, hp, heq⟩ := List.mem_map.1 h
    obtain ⟨hschema, rfl⟩ := Prod.mk.inj heq
    rw [← hschema]
    cases hd : spec.parameters with
    | error e =>
      rw [hd] at hp
      cases hp
    | ok declared =>
      rw [hd] at hp
      exact .parameter hd hp
  · obtain ⟨node, hnode, heq⟩ := List.mem_map.1 h
    obtain ⟨hschema, rfl⟩ := Prod.mk.inj heq
    exact hschema ▸ .body (Option.mem_toList.1 hnode)
  · obtain ⟨⟨key, answer⟩, ha, h⟩ := List.mem_flatMap.1 h
    obtain ⟨⟨contentType, media⟩, hm, heq⟩ := List.mem_filterMap.1 h
    cases hr : (spec.operation.get? "responses").bind Node.entries? with
    | none =>
      rw [hr] at ha
      cases ha
    | some responses =>
      rw [hr] at ha
      cases hc : (answer.get? "content").bind Node.entries? with
      | none =>
        rw [hc] at hm
        cases hm
      | some content =>
        rw [hc] at hm heq
        cases hu : unwrap? (mediaSchema media) media with
        | error e =>
          rw [hu] at heq
          cases heq
        | ok found =>
          rw [hu] at heq
          obtain ⟨hschema, rfl⟩ := Prod.mk.inj (Option.some.inj heq)
          rw [← hschema]
          refine .response hr ha hc hm ?_ hu
          -- what is no mapping has no schema
          cases media with
          | map path entries => rfl
          | null | bool _ | int _ | float _ | str _ | other _ | list _ _ =>
            cases hu
            cases hschema

/-! ## Paths -/

/-- **A path can be written exactly when there is an argument for each of its placeholders.** -/
theorem exists_pathExpression_iff {path operationName : String} {arguments : List Argument} :
    (∃ text, pathExpression path arguments operationName = .ok text) ↔
      ∀ hole ∈ Emit.placeholders path, (placeholderArgument? arguments hole).isSome = true := by
  unfold pathExpression
  cases hf : (Emit.placeholders path).find? fun p => (placeholderArgument? arguments p).isNone with
  | some hole =>
    have hnone := List.find?_some hf
    refine ⟨fun h => absurd h (not_exists_ok _), fun h => ?_⟩
    have hsome := h hole (List.mem_of_find?_eq_some hf)
    rw [Option.isNone_iff_eq_none.1 hnone] at hsome
    cases hsome
  | none =>
    have hall : ∀ hole ∈ Emit.placeholders path, (placeholderArgument? arguments hole).isSome = true := by
      intro hole hm
      have hne := List.find?_eq_none.1 hf hole hm
      rwa [Bool.not_eq_true, Option.isNone_eq_false_iff] at hne
    obtain ⟨body, hbody⟩ := Emit.exists_templateBody fun hole hm => hall hole (Emit.mem_placeholders.2 hm)
    refine ⟨fun _ => hall, fun _ => ?_⟩
    dsimp only
    unfold Emit.pathTemplate?
    rw [hbody]
    exact ⟨_, rfl⟩

/-! ## Arguments beside parameters -/

/-- **The arguments of a method beside the parameters of its operation**: one for each, in their order.  What comes after
them is for no parameter. -/
inductive Beside : List Parameter → List Argument → Prop where
  | rest {arguments : List Argument} (h : ∀ a ∈ arguments, a.pathName = none) : Beside [] arguments
  | cons {p : Parameter} {a : Argument} {declared : List Parameter} {arguments : List Argument}
    (hname : a.pathName = some p.name) (hlocation : a.location = p.location) (h : Beside declared arguments) :
    Beside (p :: declared) (a :: arguments)

namespace Beside

variable {declared : List Parameter} {arguments : List Argument}

theorem append (h : Beside declared arguments) {more : List Argument} (hmore : ∀ a ∈ more, a.pathName = none) :
    Beside declared (arguments ++ more) := by
  induction h with
  | rest h => exact .rest fun a ha => (List.mem_append.1 ha).elim (h a) (hmore a)
  | cons hname hlocation _ ih => exact .cons hname hlocation ih

theorem markOptional (h : Beside declared arguments) : Beside declared (Operation.markOptional arguments) := by
  induction h with
  | @rest arguments h =>
    refine .rest ?_
    induction arguments with
    | nil => exact h
    | cons a more ih =>
      exact List.forall_mem_cons.2 ⟨h a List.mem_cons_self, ih fun b hb => h b (List.mem_cons_of_mem _ hb)⟩
  | cons hname hlocation _ ih => exact .cons hname hlocation ih

/-- The argument for a placeholder is the one for the first parameter of its name. -/
theorem exists_of_placeholderArgument? (h : Beside declared arguments) {hole name : String}
    (hname : placeholderArgument? arguments hole = some name) :
    ∃ first a, declared.find? (·.name == hole) = some first ∧ (first, a) ∈ declared.zip arguments ∧ name = a.name := by
  obtain ⟨found, hfound, rfl⟩ := Option.map_eq_some_iff.1 hname
  clear hname
  induction h with
  | rest h =>
    have hhole : found.pathName = some hole := by simpa using List.find?_some hfound
    cases (h found (List.mem_of_find?_eq_some hfound)).symm.trans hhole
  | @cons p a declared arguments hname _ _ ih =>
    rw [List.find?_cons, hname, Option.some_beq_some] at hfound
    rw [List.find?_cons, List.zip_cons_cons]
    cases hp : p.name == hole with
    | true =>
      rw [hp] at hfound
      cases hfound
      exact ⟨p, found, rfl, List.mem_cons_self, rfl⟩
    | false =>
      rw [hp] at hfound
      obtain ⟨first, b, hfirst, hb, hname⟩ := ih hfound
      exact ⟨first, b, hfirst, List.mem_cons_of_mem _ hb, hname⟩

theorem placeholderArgument?_isSome (h : Beside declared arguments) (hole : String) :
    (placeholderArgument? arguments hole).isSome = declared.any (·.name == hole) := by
  unfold placeholderArgument?
  rw [Option.isSome_map]
  induction h with
  | @rest arguments h =>
    have hnone : arguments.find? (·.pathName == some hole) = none := by
      refine List.find?_eq_none.2 fun a ha => ?_
      rw [h a ha]
      exact Bool.false_ne_true
    rw [hnone]
    rfl
  | @cons p a declared arguments hname _ _ ih =>
    rw [List.find?_cons, hname, Option.some_beq_some, List.any_cons]
    cases p.name == hole with
    | true => rfl
    | false => exact ih

end Beside

/-! ## What a method tells of its operation -/

theorem argumentOf_eq_ok {operationName : String} {used : List String} {p : Parameter} {a : Argument} {s t : Session}
    (h : argumentOf operationName used p s = .ok a t) :
    a.pathName = some p.name ∧ a.location = p.location ∧ a.name = freeArgument used (Naming.sanitize p.name) := by
  unfold argumentOf at h
  obtain ⟨_, u, -, h⟩ := bind_eq_ok.1 h
  obtain ⟨type, u', -, h⟩ := bind_eq_ok.1 h
  obtain ⟨rfl, -⟩ := pure_eq_ok.1 h
  exact ⟨rfl, rfl, rfl⟩

/-- Every parameter gets one argument. -/
theorem beside_argumentsOf {operationName : String} : ∀ {ps : List Parameter} {used : List String}
    {arguments : List Argument} {s t : Session}, argumentsOf operationName used ps s = .ok arguments t →
    Beside ps arguments
  | [], used, arguments, s, t, h => by
    obtain ⟨rfl, -⟩ := pure_eq_ok.1 h
    exact .rest nofun
  | p :: rest, used, arguments, s, t, h => by
    unfold argumentsOf at h
    obtain ⟨a, u, ha, h⟩ := bind_eq_ok.1 h
    obtain ⟨more, u', hmore, h⟩ := bind_eq_ok.1 h
    obtain ⟨rfl, -⟩ := pure_eq_ok.1 h
    obtain ⟨hname, hlocation, -⟩ := argumentOf_eq_ok ha
    exact .cons hname hlocation (beside_argumentsOf hmore)

/-- The body of a request fills no placeholder. -/
theorem bodyArgument?_eq_ok {operation : Node} {operationName : String} {used : List String} {body : Option Argument}
    {s t : Session} (h : bodyArgument? operation operationName used s = .ok body t) :
    ∀ a ∈ body.toList, a.pathName = none ∧ a.name = freeArgument used "payload" := by
  unfold bodyArgument? at h
  cases hm : mediaSchema? ((operation.get? "requestBody").getD .null) "application/json" with
  | none =>
    simp only [hm] at h
    obtain ⟨rfl, -⟩ := pure_eq_ok.1 h
    exact fun _ ha => nomatch ha
  | some node =>
    simp only [hm] at h
    obtain ⟨type, u, -, h⟩ := bind_eq_ok.1 h
    obtain ⟨rfl, -⟩ := pure_eq_ok.1 h
    intro a ha
    rw [Option.toList_some, List.mem_singleton] at ha
    rw [ha]
    exact ⟨rfl, rfl⟩

theorem beside_arguments {operation : Node} {operationName : String} {used used' : List String}
    {declared : List Parameter} {parameters : List Argument} {body : Option Argument} {s t s' t' : Session}
    (hp : argumentsOf operationName used declared s = .ok parameters t)
    (hb : bodyArgument? operation operationName used' s' = .ok body t') : Beside declared (parameters ++ body.toList) :=
  (beside_argumentsOf hp).append fun a ha => (bodyArgument?_eq_ok hb a ha).1

/-- The placeholders that the arguments of a method fill are the parameters of its operation. -/
theorem filled_iff {operation : Node} {operationName hole : String} {used used' : List String} {declared : List Parameter}
    {parameters : List Argument} {body : Option Argument} {s t s' t' : Session}
    (hp : argumentsOf operationName used declared s = .ok parameters t)
    (hb : bodyArgument? operation operationName used' s' = .ok body t') :
    (placeholderArgument? (parameters ++ body.toList) hole).isSome = true ↔ ∃ p ∈ declared, p.name = hole := by
  rw [(beside_arguments hp hb).placeholderArgument?_isSome, List.any_eq_true]
  simp only [beq_iff_eq]

theorem bodyTypes_unwrapped {operationName key : String} {declared : List String} {several : Bool} :
    ∀ {content : List (String × Node)} {s t : Session} {found : List (TypeExpr × Option Unwrapping)},
    bodyTypes operationName key declared several content s = .ok found t →
    ∀ entry ∈ content, entry.2.isMap = true → ∃ found, unwrap? (mediaSchema entry.2) entry.2 = .ok found
  | [], _, _, _, _ => nofun
  | (contentType, media) :: rest, s, t, found, h => by
    rw [bodyTypes] at h
    split at h
    · obtain ⟨first, u, hfirst, h⟩ := bind_eq_ok.1 h
      obtain ⟨more, u', hmore, h⟩ := bind_eq_ok.1 h
      obtain ⟨unwrapping, -, -, hw, -, -⟩ := bodyType_eq_ok hfirst
      exact List.forall_mem_cons.2 ⟨fun _ => ⟨unwrapping, hw⟩, bodyTypes_unwrapped hmore⟩
    · rename_i hmap
      exact List.forall_mem_cons.2 ⟨fun h => absurd h hmap, bodyTypes_unwrapped h⟩

theorem responseTypes_unwrapped {operationName : String} {declared : List String} :
    ∀ {responses : List (String × Node)} {s t : Session} {found : List (TypeExpr × Option Unwrapping)},
    responseTypes operationName declared responses s = .ok found t →
    ∀ body ∈ bodies responses, ∃ found, unwrap? (mediaSchema body.2.2) body.2.2 = .ok found
  | [], _, _, _, _ => nofun
  | (key, response) :: rest, s, t, found, h => by
    intro body hbody
    rw [bodies, List.flatMap_cons, ← bodies, List.mem_append] at hbody
    unfold responseTypes at h
    cases hcontent : (response.get? "content").bind Node.entries? with
    | some content =>
      rw [hcontent] at h
      obtain ⟨first, u, hfirst, h⟩ := bind_eq_ok.1 h
      obtain ⟨more, u', hmore, h⟩ := bind_eq_ok.1 h
      rcases hbody with hbody | hbody
      · obtain ⟨entry, hm, rfl⟩ := List.mem_map.1 hbody
        rw [mediaOf, hcontent] at hm
        obtain ⟨hm, hmap⟩ := List.mem_filter.1 hm
        exact bodyTypes_unwrapped hfirst entry hm hmap
      · exact responseTypes_unwrapped hmore body hbody
    | none =>
      rw [hcontent] at h
      rcases hbody with hbody | hbody
      · obtain ⟨entry, hm, -⟩ := List.mem_map.1 hbody
        rw [mediaOf, hcontent] at hm
        cases hm
      · exact responseTypes_unwrapped h body hbody

/-! ## How a method is made -/

/-- What an operation comes to before its path is written. -/
structure Prepared where
  declared : List Parameter
  parameters : List Argument
  body : Option Argument
  responses : Responses

/-- The arguments of the method, the one for the body last. -/
def Prepared.arguments (made : Prepared) : List Argument :=
  made.parameters ++ made.body.toList

/-- The method with a path. -/
def Prepared.method (made : Prepared) (spec : Spec) (path : String) : Method :=
  ⟨spec.name, spec.verb, spec.path, path, markOptional made.arguments, returnType made.responses.types,
    made.responses.unwrappings, made.body.map (·.name),
    documentation spec.operation (made.arguments.map fun a => (a.name, a.description))⟩

/-- The part of the generation of an operation that comes before its path. -/
def Spec.prepare (spec : Spec) : Gen Prepared := do
  let declared ← match spec.parameters with
    | .ok parameters => pure parameters
    | .error e => throw (.unwritable e)
  let parameters ← argumentsOf spec.name [responseName] declared
  let body ← bodyArgument? spec.operation spec.name (responseName :: parameters.map (·.name))
  let responses ← responsesOf spec.operation spec.name
  return ⟨declared, parameters, body, responses⟩

/-- The part of the generation of an operation that comes after that. -/
def Prepared.finish (made : Prepared) (spec : Spec) : Gen Method :=
  match pathExpression spec.path made.arguments spec.name with
  | .error e => throw e
  | .ok path => do
    Codegen.addMethod (made.method spec path)
    return made.method spec path

theorem generate_eq_prepare (spec : Spec) : generate spec = spec.prepare >>= (·.finish spec) := by
  unfold generate Spec.prepare
  cases spec.parameters with
  | error e => rfl
  | ok declared =>
    simp only [bind_assoc, pure_bind]
    rfl

theorem prepare_eq_ok {spec : Spec} {made : Prepared} {s t : Session} (h : spec.prepare s = .ok made t) :
    ∃ u₁ u₂, spec.parameters = .ok made.declared ∧
      argumentsOf spec.name [responseName] made.declared s = .ok made.parameters u₁ ∧
      bodyArgument? spec.operation spec.name (responseName :: made.parameters.map (·.name)) u₁ = .ok made.body u₂ ∧
      responsesOf spec.operation spec.name u₂ = .ok made.responses t := by
  unfold Spec.prepare at h
  cases hp : spec.parameters with
  | error e =>
    rw [hp] at h
    cases h
  | ok declared =>
    rw [hp] at h
    obtain ⟨_, _, hd, h⟩ := bind_eq_ok.1 h
    obtain ⟨rfl, rfl⟩ := pure_eq_ok.1 hd
    obtain ⟨parameters, u₁, hparameters, h⟩ := bind_eq_ok.1 h
    obtain ⟨body, u₂, hbody, h⟩ := bind_eq_ok.1 h
    obtain ⟨responses, u₃, hresponses, h⟩ := bind_eq_ok.1 h
    obtain ⟨rfl, rfl⟩ := pure_eq_ok.1 h
    exact ⟨u₁, u₂, rfl, hparameters, hbody, hresponses⟩

/-- **How a method is made**: the arguments and the types of the responses come first, then the path; then it is added. -/
theorem generate_inv {spec : Spec} {s t : Session} {m : Method} (h : generate spec s = .ok m t) :
    ∃ made u text, spec.prepare s = .ok made u ∧ pathExpression spec.path made.arguments spec.name = .ok text ∧
      m = made.method spec text := by
  rw [generate_eq_prepare] at h
  obtain ⟨made, u, hmade, h⟩ := bind_eq_ok.1 h
  unfold Prepared.finish at h
  cases hpath : pathExpression spec.path made.arguments spec.name with
  | error e =>
    rw [hpath] at h
    exact absurd h throw_ne_ok
  | ok text =>
    rw [hpath] at h
    obtain ⟨_, _, -, h⟩ := bind_eq_ok.1 h
    obtain ⟨rfl, -⟩ := pure_eq_ok.1 h
    exact ⟨made, u, text, hmade, hpath, rfl⟩

/-- **Only an operation that can become a method becomes one.** -/
theorem generable_of_ok {spec : Spec} {s t : Session} {m : Method} (h : generate spec s = .ok m t) : spec.Generable := by
  obtain ⟨made, u, text, hmade, hpath, -⟩ := generate_inv h
  obtain ⟨u₁, u₂, hp, hparameters, hbody, hresponses⟩ := prepare_eq_ok hmade
  refine ⟨⟨made.declared, hp, fun hole hhole => ?_⟩, fun answers hanswers => ?_⟩
  · exact (filled_iff hparameters hbody).1 (exists_pathExpression_iff.1 ⟨text, hpath⟩ hole hhole)
  · unfold responsesOf at hresponses
    rw [hanswers] at hresponses
    obtain ⟨found, u, hfound, -⟩ := bind_eq_ok.1 hresponses
    exact responseTypes_unwrapped hfound

end Operation

namespace Making

open Operation
open Linking (argumentNames argumentNames_markOptional foundNames foundNames_eq)

variable {P : Claim} {Asked : String → Option String → Prop} {Listed : Node → Prop}
  {Fails : GenerateError → Session → Prop} {waiting owed : List String} {s : Session}

/-- Whether what is entered and listed for a schema under a name is within what may be. -/
structure Allowed (Asked : String → Option String → Prop) (Listed : Node → Prop) (schema : Option Schema)
    (name : String) : Prop where
  asked : ∀ n place, Schema.askedByItems? schema (some name) = some (n, place) → Asked n place
  listed : ∀ value ∈ Schema.listedByItems schema, Listed value

/-- Where any name without a dot may be asked for, the types of an operation are within that. -/
theorem allowed_of_needs {spec : Spec} {schema : Option Schema} {name : String} (h : spec.Needs schema name) :
    Allowed (fun name _ => Dotless name) (fun _ => True) schema name where
  asked n place hn := by
    refine Schema.askedByItems?_of (fun _ hn => hn.append (by decide)) schema ?_ hn
    rintro m ⟨⟩
    exact h.plain.dotless
  listed _ _ := trivial

/-! ## Arguments -/

section Arguments

variable {operationName : String}

theorem Rules.does_argumentOf (R : Rules P Asked Listed Fails) (used : List String) (p : Parameter)
    (h : Allowed Asked Listed ((p.node.get? "schema").bind Schema.read?) (parameterType operationName p)) :
    Does P Fails [] (argumentOf operationName used p) fun a => a.type.names := by
  unfold argumentOf
  refine (R.does_warnIf _ _).andThen fun _ => (R.does_resolveType h.asked h.listed).bind fun type => R.pure ?_
  rw [List.append_nil]
  exact List.Subset.refl _

theorem Rules.does_argumentsOf (R : Rules P Asked Listed Fails) : ∀ (used : List String) (ps : List Parameter),
    (∀ p ∈ ps, Allowed Asked Listed ((p.node.get? "schema").bind Schema.read?) (parameterType operationName p)) →
    Does P Fails [] (argumentsOf operationName used ps) argumentNames
  | _, [], _ => R.pure (List.nil_subset _)
  | used, p :: rest, h => by
    unfold argumentsOf
    refine (R.does_argumentOf used p (h p List.mem_cons_self)).bind fun a =>
      (R.does_argumentsOf _ rest fun q hq => h q (List.mem_cons_of_mem _ hq)).bind fun arguments => R.pure ?_
    rw [List.append_nil]
    change _ ⊆ a.type.names ++ argumentNames arguments
    exact List.append_subset.2 ⟨List.subset_append_right _ _, List.subset_append_left _ _⟩

theorem Rules.does_bodyArgument? (R : Rules P Asked Listed Fails) (operation : Node) (used : List String)
    (h : ∀ node, mediaSchema? ((operation.get? "requestBody").getD .null) "application/json" = some node →
      Allowed Asked Listed (Schema.read? node) (requestType operationName)) :
    Does P Fails [] (bodyArgument? operation operationName used) fun a => argumentNames a.toList := by
  unfold bodyArgument?
  cases hm : mediaSchema? ((operation.get? "requestBody").getD .null) "application/json" with
  | none =>
    simp only [hm]
    exact R.pure (List.nil_subset _)
  | some node =>
    simp only [hm]
    refine (R.does_resolveType (h node hm).asked (h node hm).listed).bind fun type => R.pure ?_
    simp [argumentNames]

end Arguments

/-! ## Responses -/

section Responses

variable {operationName : String}

/-- Whether the type of the body of a response is within what may be asked for, or else the body cannot be unwrapped and that
counts as a failure. -/
def BodyAllowed (Asked : String → Option String → Prop) (Listed : Node → Prop) (Fails : GenerateError → Session → Prop)
    (operationName key : String) (several : Bool) (contentType : String) (media : Node) : Prop :=
  (∀ found, unwrap? (mediaSchema media) media = .ok found →
    Allowed Asked Listed (returned (mediaSchema media) found) (responseType operationName key several contentType)) ∧
  ∀ e, unwrap? (mediaSchema media) media = .error e → ∀ s, Fails (.schemaPath e) s

theorem Rules.does_bodyType (R : Rules P Asked Listed Fails) {key contentType : String} {declared : List String}
    {several : Bool} {media : Node} (h : BodyAllowed Asked Listed Fails operationName key several contentType media) :
    Does P Fails [] (bodyType operationName key declared several contentType media) fun b => b.1.names := by
  obtain ⟨hallowed, hfails⟩ := h
  unfold mediaSchema at hallowed hfails
  unfold bodyType
  refine (R.does_warnIf _ _).andThen fun _ => ?_
  cases hu : unwrap? ((media.get? "schema").bind Schema.read?) media with
  | error e => exact .throw fun _ _ s _ => hfails e hu s
  | ok found =>
    refine (R.does_resolveType (hallowed found hu).asked (hallowed found hu).listed).bind fun type => R.pure ?_
    rw [List.append_nil]
    exact List.Subset.refl _

theorem Rules.does_bodyTypes (R : Rules P Asked Listed Fails) {key : String} {declared : List String} {several : Bool} :
    ∀ content : List (String × Node), (∀ entry ∈ content, entry.2.isMap = true →
      BodyAllowed Asked Listed Fails operationName key several entry.1 entry.2) →
    Does P Fails [] (bodyTypes operationName key declared several content) foundNames
  | [], _ => R.pure (List.nil_subset _)
  | (contentType, media) :: rest, h => by
    have hrest := fun entry he => h entry (List.mem_cons_of_mem _ he)
    unfold bodyTypes
    split
    · rename_i hmap
      refine (R.does_bodyType (h (contentType, media) List.mem_cons_self hmap)).bind fun b =>
        (R.does_bodyTypes rest hrest).bind fun found => R.pure ?_
      rw [List.append_nil]
      change _ ⊆ b.1.names ++ foundNames found
      exact List.append_subset.2 ⟨List.subset_append_right _ _, List.subset_append_left _ _⟩
    · exact R.does_bodyTypes rest hrest

theorem Rules.does_responseTypes (R : Rules P Asked Listed Fails) {declared : List String} :
    ∀ responses : List (String × Node), (∀ answer ∈ responses, ∀ content,
      (answer.2.get? "content").bind Node.entries? = some content → ∀ entry ∈ content, entry.2.isMap = true →
      BodyAllowed Asked Listed Fails operationName answer.1 (content.length > 1) entry.1 entry.2) →
    Does P Fails [] (responseTypes operationName declared responses) foundNames
  | [], _ => R.pure (List.nil_subset _)
  | (key, answer) :: rest, h => by
    have hrest := fun a ha => h a (List.mem_cons_of_mem _ ha)
    unfold responseTypes
    cases hc : (answer.get? "content").bind Node.entries? with
    | some content =>
      refine (R.does_bodyTypes content (h (key, answer) List.mem_cons_self content hc)).bind fun here =>
        (R.does_responseTypes rest hrest).bind fun found => R.pure ?_
      rw [List.append_nil, foundNames, foundNames, foundNames, List.flatMap_append]
      exact List.append_subset.2 ⟨List.subset_append_right _ _, List.subset_append_left _ _⟩
    | none => exact R.does_responseTypes rest hrest

theorem Rules.does_responsesOf (R : Rules P Asked Listed Fails) (operation : Node)
    (h : ∀ responses, (operation.get? "responses").bind Node.entries? = some responses → ∀ answer ∈ responses,
      ∀ content, (answer.2.get? "content").bind Node.entries? = some content → ∀ entry ∈ content,
      entry.2.isMap = true → BodyAllowed Asked Listed Fails operationName answer.1 (content.length > 1) entry.1 entry.2) :
    Does P Fails [] (responsesOf operation operationName) fun r => TypeExpr.namesAll r.types := by
  unfold responsesOf
  cases hr : (operation.get? "responses").bind Node.entries? with
  | none => exact (R.does_warn _).andThen fun _ => R.pure (List.nil_subset _)
  | some responses =>
    refine (R.does_responseTypes responses (h responses hr)).bind fun found => R.pure ?_
    rw [foundNames_eq, List.append_nil]
    exact List.Subset.refl _

end Responses

/-! ## Methods -/

/-- **What the making of a method comes to**: the claim, just before the method is added, with the names in its types to be
placed; or a failure. -/
def MethodEnds (P : Claim) (Fails : GenerateError → Session → Prop) (waiting owed : List String) :
    EStateM.Result GenerateError Session Method → Prop :=
  Comes (fun m s => ∃ u types, Fit u ∧ P waiting (argumentNames m.arguments ++ (TypeExpr.namesAll types ++ owed)) u ∧
    m.returnType = returnType types ∧ Codegen.addMethod m u = .ok () s) Fails

/-- **The method of an operation is made within the rules.** -/
theorem Rules.does_generate (R : Rules P Asked Listed Fails) {spec : Spec}
    (hneeds : ∀ schema name, spec.Needs schema name → Allowed Asked Listed schema name)
    (hbad : ¬ spec.Generable → ∀ e s, Fails e s) (hfit : Fit s) (hP : P waiting owed s) :
    MethodEnds P Fails waiting owed (Operation.generate spec s) := by
  have hbody : ∀ responses, (spec.operation.get? "responses").bind Node.entries? = some responses → ∀ answer ∈ responses,
      ∀ content, (answer.2.get? "content").bind Node.entries? = some content → ∀ entry ∈ content,
      entry.2.isMap = true →
      BodyAllowed Asked Listed Fails spec.name answer.1 (content.length > 1) entry.1 entry.2 := by
    rintro responses hr ⟨key, answer⟩ ha content hc ⟨contentType, media⟩ hm hmap
    refine ⟨fun found hu => hneeds _ _ (.response hr ha hc hm hmap hu), fun e hu => hbad (fun hg => ?_) _⟩
    have hmem : (key, contentType, media) ∈ bodies responses := by
      refine List.mem_flatMap.2 ⟨_, ha, List.mem_map.2 ⟨(contentType, media), ?_, rfl⟩⟩
      rw [mediaOf, hc]
      exact List.mem_filter.2 ⟨hm, hmap⟩
    obtain ⟨found, hfound⟩ := hg.unwrapped responses hr _ hmem
    cases hu.symm.trans hfound
  unfold Operation.generate
  dsimp only
  cases hd : spec.parameters with
  | error e =>
    refine hbad (fun hg => ?_) _ s
    obtain ⟨declared, hdeclared, -⟩ := hg.filled
    cases hd.symm.trans hdeclared
  | ok declared =>
    dsimp only
    refine bind_cases (fun found u₀ hr₀ => ?_) fun e u₀ hr₀ => by cases hr₀
    obtain ⟨rfl, rfl⟩ := pure_eq_ok.1 hr₀
    have h₁ := R.does_argumentsOf [responseName] declared (fun p hp => hneeds _ _ (.parameter hd hp)) s waiting owed hfit hP
    refine bind_cases (fun parameters u₁ hr₁ => ?_) fun e u₁ hr₁ => by rw [hr₁] at h₁; exact h₁
    rw [hr₁] at h₁
    have h₂ := R.does_bodyArgument? spec.operation (responseName :: parameters.map (·.name))
      (fun node hnode => hneeds _ _ (.body hnode)) u₁ waiting (argumentNames parameters ++ owed) h₁.1 h₁.2
    refine bind_cases (fun body u₂ hr₂ => ?_) fun e u₂ hr₂ => by rw [hr₂] at h₂; exact h₂
    rw [hr₂] at h₂
    have h₃ := R.does_responsesOf spec.operation hbody u₂ waiting
      (argumentNames body.toList ++ (argumentNames parameters ++ owed)) h₂.1 h₂.2
    refine bind_cases (fun responses u₃ hr₃ => ?_) fun e u₃ hr₃ => by rw [hr₃] at h₃; exact h₃
    rw [hr₃] at h₃
    cases hpath : pathExpression spec.path (parameters ++ body.toList) spec.name with
    | error e =>
      refine hbad (fun hg => ?_) _ u₃
      obtain ⟨declared', hdeclared, hfilled⟩ := hg.filled
      cases hd.symm.trans hdeclared
      obtain ⟨text, htext⟩ := exists_pathExpression_iff.2 fun hole hhole =>
        (filled_iff hr₁ hr₂).2 (hfilled hole hhole)
      cases hpath.symm.trans htext
    | ok text =>
      refine ⟨u₃, responses.types, h₃.1, R.mono h₃.2 ?_, rfl, rfl⟩
      rw [argumentNames_markOptional]
      intro n hn
      simp only [argumentNames, List.flatMap_append, List.mem_append] at hn ⊢
      tauto

/-- **The methods of a class are made within the rules.**  The claim may go along with the operations that are done. -/
theorem ends_generateMethods {P : List Spec → Claim} (R : ∀ done, Rules (P done) Asked Listed Fails)
    (hmethod : ∀ done spec s m types u u', Fit u → P done [] (argumentNames m.arguments ++ TypeExpr.namesAll types) u →
      m.returnType = returnType types → Codegen.addMethod m u = .ok () u' → Operation.generate spec s = .ok m u' →
      P (done ++ [spec]) [] [] u') :
    ∀ (specs done : List Spec) (s : Session), (∀ spec ∈ specs, ∀ schema name, spec.Needs schema name →
      Allowed Asked Listed schema name) → (∀ spec ∈ specs, ¬ spec.Generable → ∀ e s, Fails e s) →
    Fit s → P done [] [] s →
    Comes (fun _ s' => Fit s' ∧ P (done ++ specs) [] [] s') Fails (Generate.generateMethods specs s)
  | [], done, s, _, _, hfit, hP => ⟨hfit, (List.append_nil done).symm ▸ hP⟩
  | spec :: rest, done, s, hneeds, hbad, hfit, hP => by
    have h := (R done).does_generate (hneeds spec List.mem_cons_self) (hbad spec List.mem_cons_self) hfit hP
    unfold Generate.generateMethods
    refine bind_cases (fun m u' hr => ?_) fun e u' hr => ?_
    · rw [hr] at h
      obtain ⟨u, types, hfit', hP', htypes, hadd⟩ := h
      rw [List.append_nil] at hP'
      have hdone := hmethod done spec s m types u u' hfit' hP' htypes hadd hr
      cases hadd
      rw [List.append_cons]
      exact ends_generateMethods R hmethod rest (done ++ [spec]) _ (fun spec' hs => hneeds spec' (List.mem_cons_of_mem _ hs))
        (fun spec' hs => hbad spec' (List.mem_cons_of_mem _ hs)) ⟨hfit'.sound, hfit'.isModule⟩ hdone
    · rw [hr] at h
      exact h

end Making
end TypedClient
