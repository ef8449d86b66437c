import TypedClient.Proofs.Making.Methods
import TypedClient.Proofs.Script.Templates
/-!
# Placeholders — the arguments that fill a path

The parameters of an operation are kept by name and location, and each has an argument of its own (`Beside`).  The path asks
by name alone: a placeholder gets the argument of the first parameter of its name, wherever that one goes
(`placeholders_bound`).  This is the argument of the path parameter exactly if no other parameter of the name comes first.
-/
namespace TypedClient
namespace Operation

open Codegen (Session)
open Emit (Argument Method)

/-! ## Parameters -/

/-- What tells one parameter of an operation from another. -/
def Parameter.key (p : Parameter) : String × String := (p.name, p.location)

theorem keys_declare (p : Parameter) : ∀ ps : List Parameter,
    (declare ps p).map Parameter.key = if p.key ∈ ps.map Parameter.key then ps.map Parameter.key
      else ps.map Parameter.key ++ [p.key]
  | [] => rfl
  | q :: rest => by
    have hsame : (q.name = p.name && q.location = p.location) = true ↔ p.key = q.key := by
      simp only [Parameter.key, Prod.mk.injEq, Bool.and_eq_true, decide_eq_true_eq]
      exact and_congr eq_comm eq_comm
    rw [declare, List.map_cons]
    by_cases hq : (q.name = p.name && q.location = p.location) = true
    · rw [if_pos hq, if_pos (List.mem_cons.2 (.inl (hsame.1 hq))), List.map_cons, hsame.1 hq]
    · rw [if_neg hq, List.map_cons, keys_declare p rest]
      by_cases hrest : p.key ∈ rest.map Parameter.key
      · rw [if_pos hrest, if_pos (List.mem_cons_of_mem _ hrest)]
      · have hnot : p.key ∉ q.key :: rest.map Parameter.key :=
          fun h => (List.mem_cons.1 h).elim (fun heq => hq (hsame.2 heq)) hrest
        rw [if_neg hrest, if_neg hnot, List.cons_append]

/-- **No two parameters of an operation have the same name and location.** -/
theorem nodup_keys {spec : Spec} {declared : List Parameter} (h : spec.parameters = .ok declared) :
    (declared.map Parameter.key).Nodup := by
  have hfold : ∀ (more ps : List Parameter), (ps.map Parameter.key).Nodup →
      ((more.foldl declare ps).map Parameter.key).Nodup := by
    intro more
    induction more with
    | nil => exact fun ps hps => hps
    | cons p more ih =>
      refine fun ps hps => ih _ ?_
      rw [keys_declare]
      split
      · exact hps
      · rename_i hp
        rw [List.nodup_append_comm]
        exact List.nodup_cons.2 ⟨hp, hps⟩
  unfold Spec.parameters at h
  split at h
  · cases h
    exact hfold _ [] List.nodup_nil
  · cases h
  · cases h

/-! ## Names of arguments -/

theorem argumentCandidate_injective (base : String) : Function.Injective (argumentCandidate base) :=
  Scope.numbered_injective base "" rfl fun n => by simp [argumentCandidate]

/-- **A free name is not in use.** -/
theorem freeArgument_not_mem (used : List String) (base : String) : freeArgument used base ∉ used := by
  have htaken : ∀ name, used.contains name = true → name ∈ used := fun _ => List.contains_iff_mem.1
  obtain ⟨name, hname⟩ := Scope.exists_free (argumentCandidate_injective base) htaken
  rw [freeArgument, hname]
  simpa using List.find?_some hname

theorem proper_freeArgument {base : String} (h : Naming.Proper base) (used : List String) :
    Naming.Proper (freeArgument used base) := by
  obtain ⟨n, hn⟩ := Scope.exists_chosen (argumentCandidate base) (used.length + 1) (!used.contains ·)
  have hname : freeArgument used base = argumentCandidate base n := hn
  rw [hname, argumentCandidate]
  split
  · exact h
  · exact h.append_toString _

/-! ## Parameters and their arguments -/

/-- **Parameters are the same by name and location exactly if their arguments are the same by name.** -/
theorem key_eq_iff_name_eq {declared : List Parameter} {arguments : List Argument}
    (hkeys : (declared.map Parameter.key).Nodup) (hnames : (arguments.map (·.name)).Nodup) {p q : Parameter}
    {a b : Argument} (hp : (p, a) ∈ declared.zip arguments) (hq : (q, b) ∈ declared.zip arguments) :
    p.key = q.key ↔ a.name = b.name := by
  -- either says that both stand at one place
  obtain ⟨i, hi, hpair⟩ := List.getElem_of_mem hp
  obtain ⟨j, hj, hpair'⟩ := List.getElem_of_mem hq
  rw [List.getElem_zip] at hpair hpair'
  cases hpair
  cases hpair'
  exact (getElem_map_inj_iff hkeys).trans (getElem_map_inj_iff hnames).symm

theorem argumentsOf_names {operationName : String} : ∀ {ps : List Parameter} {used : List String}
    {arguments : List Argument} {s t : Session}, argumentsOf operationName used ps s = .ok arguments t →
    (∀ a ∈ arguments, Naming.Proper a.name) ∧ (used.Nodup → (used ++ arguments.map (·.name)).Nodup)
  | [], used, arguments, s, t, h => by
    obtain ⟨rfl, -⟩ := pure_eq_ok.1 h
    exact ⟨nofun, fun hused => by rwa [List.map_nil, List.append_nil]⟩
  | p :: rest, used, arguments, s, t, h => by
    unfold argumentsOf at h
    obtain ⟨a, u, ha, h⟩ := bind_eq_ok.1 h
    obtain ⟨more, u', hmore, h⟩ := bind_eq_ok.1 h
    obtain ⟨rfl, -⟩ := pure_eq_ok.1 h
    obtain ⟨-, -, hname⟩ := argumentOf_eq_ok ha
    obtain ⟨hproper, hnodup⟩ := argumentsOf_names hmore
    refine ⟨List.forall_mem_cons.2 ⟨?_, hproper⟩, fun hused => ?_⟩
    · rw [hname]
      exact proper_freeArgument (Naming.proper_sanitize _) used
    · rw [List.map_cons, List.append_cons]
      refine hnodup ?_
      rw [List.nodup_append_comm]
      exact List.nodup_cons.2 ⟨hname ▸ freeArgument_not_mem used _, hused⟩

/-- **What is known of the arguments before the path is written.** -/
theorem arguments_of_prepare {spec : Spec} {made : Prepared} {s t : Session} (h : spec.prepare s = .ok made t) :
    Beside made.declared made.arguments ∧ (∀ a ∈ made.arguments, Naming.Proper a.name) ∧
      (responseName :: made.arguments.map (·.name)).Nodup := by
  obtain ⟨u₁, u₂, -, hparameters, hbody, -⟩ := prepare_eq_ok h
  obtain ⟨hproper, hnodup⟩ := argumentsOf_names hparameters
  have hnames := hnodup (List.nodup_singleton _)
  have hname := fun a ha => (bodyArgument?_eq_ok hbody a ha).2
  refine ⟨beside_arguments hparameters hbody, fun a ha => ?_, ?_⟩
  · rcases List.mem_append.1 ha with ha | ha
    · exact hproper a ha
    · rw [hname a ha]
      exact proper_freeArgument ⟨by decide, by decide⟩ _
  · have hfresh : ∀ a ∈ made.body.toList, a.name ∉ responseName :: made.parameters.map (·.name) := by
      intro a ha
      rw [hname a ha]
      exact freeArgument_not_mem _ _
    unfold Prepared.arguments
    cases hb : made.body with
    | none => rwa [Option.toList_none, List.append_nil]
    | some a =>
      rw [hb] at hfresh
      rw [Option.toList_some, List.map_append, ← List.cons_append, List.nodup_append_comm]
      exact List.nodup_cons.2 ⟨hfresh a List.mem_cons_self, hnames⟩

theorem placeholderArgument?_markOptional (hole : String) : ∀ arguments : List Argument,
    placeholderArgument? (markOptional arguments) hole = placeholderArgument? arguments hole
  | [] => rfl
  | a :: rest => by
    have ih := placeholderArgument?_markOptional hole rest
    unfold placeholderArgument? at ih ⊢
    rw [markOptional, List.find?_cons, List.find?_cons]
    cases a.pathName == some hole with
    | true => rfl
    | false => exact ih

theorem names_markOptional : ∀ arguments : List Argument,
    (markOptional arguments).map (·.name) = arguments.map (·.name)
  | [] => rfl
  | a :: rest => congrArg (a.name :: ·) (names_markOptional rest)

theorem isName_placeholderArgument? {arguments : List Argument} (h : ∀ a ∈ arguments, Naming.Proper a.name)
    (hole name : String) (hname : placeholderArgument? arguments hole = some name) : Script.isName name.toList = true := by
  obtain ⟨a, ha, rfl⟩ := Option.map_eq_some_iff.1 hname
  exact Script.isName_of_isIdentifier (h a (List.mem_of_find?_eq_some ha)).identifier

/-! ## Placeholders -/

theorem pathExpression_eq_ok {path operationName text : String} {arguments : List Argument}
    (h : pathExpression path arguments operationName = .ok text) :
    Emit.pathTemplate? path (placeholderArgument? arguments) = some text := by
  unfold pathExpression at h
  split at h
  · cases h
  · split at h
    · cases h
      assumption
    · cases h

/-- **The path alone decides whether there is a method**: there is one unless a placeholder has no parameter of its name. -/
theorem finish_cases {made : Prepared} (h : Beside made.declared made.arguments) (spec : Spec) (s : Session) :
    match (Emit.placeholders spec.path).find? fun hole => !made.declared.any (·.name == hole) with
    | some missing => made.finish spec s = .error (.undeclaredParameter missing spec.name) s
    | none => ∃ m t, made.finish spec s = .ok m t := by
  have hsame : (fun hole => (placeholderArgument? made.arguments hole).isNone) =
      fun hole => !made.declared.any (·.name == hole) := by
    funext hole
    rw [← h.placeholderArgument?_isSome, Option.not_isSome]
  unfold Prepared.finish
  cases hfind : (Emit.placeholders spec.path).find? fun hole => !made.declared.any (·.name == hole) with
  | some missing =>
    unfold pathExpression
    rw [hsame, hfind]
    rfl
  | none =>
    have hall : ∀ hole ∈ Emit.placeholders spec.path, (placeholderArgument? made.arguments hole).isSome = true := by
      intro hole hhole
      have hnot := List.find?_eq_none.1 hfind hole hhole
      rwa [Bool.not_eq_true, Bool.not_eq_false', ← h.placeholderArgument?_isSome] at hnot
    obtain ⟨text, htext⟩ := exists_pathExpression_iff.2 hall
    rw [htext]
    exact ⟨_, _, rfl⟩

/-- **What the placeholders of a path are bound to.**  No two parameters have the same name and location, each has an argument
of its own, and no two arguments have the same name.  The path is texts with its placeholders between them, and is written as a
literal that reads as these texts with names between them: for each placeholder the name of the argument of the first parameter
that is called so, which is the argument of the path parameter exactly if that is the first. -/
structure Bound (spec : Spec) (m : Method) (declared : List Parameter) (name : String → String) : Prop where
  parameters : spec.parameters = .ok declared
  keys : (declared.map Parameter.key).Nodup
  beside : Beside declared m.arguments
  names : (m.arguments.map (·.name)).Nodup
  texts : Emit.weave (Emit.textsOf (Emit.pathParts spec.path)) ((Emit.placeholders spec.path).map Emit.braced) = spec.path.toList
  path : Script.template? m.pathExpression = some ⟨(Emit.textsOf (Emit.pathParts spec.path)).map Script.lineFeeds,
    (Emit.placeholders spec.path).map fun hole => (name hole).toList⟩
  filled : ∀ hole ∈ Emit.placeholders spec.path, ∃ first a, declared.find? (·.name == hole) = some first ∧
    (first, a) ∈ declared.zip m.arguments ∧ name hole = a.name
  ofPath : ∀ hole ∈ Emit.placeholders spec.path, ∀ first, declared.find? (·.name == hole) = some first →
    ∀ p a, (p, a) ∈ declared.zip m.arguments → p.name = hole → p.location = "path" →
      (name hole = a.name ↔ first.location = "path")

theorem bound_method {spec : Spec} {made : Prepared} {text : String} {s t : Session} (hmade : spec.prepare s = .ok made t)
    (hpath : pathExpression spec.path made.arguments spec.name = .ok text) :
    Bound spec (made.method spec text) made.declared fun hole => (placeholderArgument? made.arguments hole).getD "" := by
  obtain ⟨_, _, hdeclared, -, -, -⟩ := prepare_eq_ok hmade
  obtain ⟨hbeside, hproper, hnodup⟩ := arguments_of_prepare hmade
  have hkeys := nodup_keys hdeclared
  have hbeside' : Beside made.declared (made.method spec text).arguments := hbeside.markOptional
  have hnames : ((made.method spec text).arguments.map (·.name)).Nodup :=
    (names_markOptional _).symm ▸ (List.nodup_cons.1 hnodup).2
  have hfilled : ∀ hole ∈ Emit.placeholders spec.path, ∃ first a, made.declared.find? (·.name == hole) = some first ∧
      (first, a) ∈ made.declared.zip (made.method spec text).arguments ∧
      (placeholderArgument? made.arguments hole).getD "" = a.name := by
    intro hole hhole
    obtain ⟨name, hname⟩ := Option.isSome_iff_exists.1 (exists_pathExpression_iff.1 ⟨text, hpath⟩ hole hhole)
    rw [hname]
    exact hbeside'.exists_of_placeholderArgument? ((placeholderArgument?_markOptional hole _).trans hname)
  refine ⟨hdeclared, hkeys, hbeside', hnames, Emit.weave_path _,
    Emit.template?_pathTemplate? (isName_placeholderArgument? hproper) (pathExpression_eq_ok hpath), hfilled, ?_⟩
  intro hole hhole first hfirst p b hb hp hlocation
  obtain ⟨first', a, hfirst', ha, hname⟩ := hfilled hole hhole
  cases hfirst.symm.trans hfirst'
  have hfound : first.name = hole := by simpa using List.find?_some hfirst
  rw [hname, ← key_eq_iff_name_eq hkeys hnames ha hb, Parameter.key, Parameter.key, Prod.mk.injEq, hfound, hp, hlocation]
  exact and_iff_right rfl

/-- **What fills the placeholders of a path.**  A method that is made binds them to the first parameters of their names,
wherever these go.  None is made if there is no parameter of such a name, or if what comes before the path fails; and these
are the only reasons. -/
theorem placeholders_bound (spec : Spec) (s : Session) :
    (∀ m t, generate spec s = .ok m t → ∃ declared name, Bound spec m declared name) ∧
    (∀ made u, spec.prepare s = .ok made u → spec.parameters = .ok made.declared ∧
      match (Emit.placeholders spec.path).find? fun hole => !made.declared.any (·.name == hole) with
      | some missing => generate spec s = .error (.undeclaredParameter missing spec.name) u
      | none => ∃ m t, generate spec s = .ok m t) ∧
    ∀ e u, spec.prepare s = .error e u → generate spec s = .error e u := by
  refine ⟨fun m t h => ?_, fun made u h => ?_, fun e u h => ?_⟩
  · obtain ⟨made, u, text, hmade, hpath, rfl⟩ := generate_inv h
    exact ⟨made.declared, _, bound_method hmade hpath⟩
  · obtain ⟨_, _, hdeclared, -, -, -⟩ := prepare_eq_ok h
    rw [generate_eq_prepare, bind_of_eq_ok h]
    exact ⟨hdeclared, finish_cases (arguments_of_prepare h).1 spec u⟩
  · rw [generate_eq_prepare]
    refine bind_cases (p := (· = .error e u)) (fun made u' hmade => ?_) fun e' u' he' => ?_
    · cases h.symm.trans hmade
    · cases h.symm.trans he'
      rfl

def parameterNode (name location : String) : Node :=
  .map none [("name", .str name), ("in", .str location), ("schema", .map none [("type", .str "string")])]

/-- A thing in a shop.  The shop is declared for the path, the thing with the operation; a header has the thing's name. -/
def thingInShop : Spec :=
  ⟨"/shops/\x7bshop\x7d/things/\x7bid\x7d", "get",
    .map none [("parameters", .list none [parameterNode "id" "path", parameterNode "id" "header"])],
    .map none [("parameters", .list none [parameterNode "shop" "path"])]⟩

theorem thingInShop_bound : ∃ m t declared name, generate thingInShop default = .ok m t ∧
    Bound thingInShop m declared name ∧ ∀ hole ∈ ["shop", "id"], ∀ p a, (p, a) ∈ declared.zip m.arguments →
      p.name = hole → p.location = "path" → name hole = a.name := by
  obtain ⟨m, t, hrun⟩ := exists_of_succeeds (r := generate thingInShop default) (by decide +kernel)
  obtain ⟨declared, name, hbound⟩ := (placeholders_bound thingInShop default).1 m t hrun
  have hplaceholders : Emit.placeholders thingInShop.path = ["shop", "id"] := by decide +kernel
  have hparameters : thingInShop.parameters = .ok [⟨"shop", "path", parameterNode "shop" "path"⟩,
      ⟨"id", "path", parameterNode "id" "path"⟩, ⟨"id", "header", parameterNode "id" "header"⟩] := by
    decide +kernel
  cases hparameters.symm.trans hbound.parameters
  refine ⟨m, t, _, name, hrun, hbound, fun hole hhole p a ha hname hlocation => ?_⟩
  obtain ⟨first, _, hfirst, -, -⟩ := hbound.filled hole (hplaceholders ▸ hhole)
  refine (hbound.ofPath hole (hplaceholders ▸ hhole) first hfirst p a ha hname hlocation).2 ?_
  simp only [List.mem_cons, List.not_mem_nil, or_false] at hhole
  rcases hhole with rfl | rfl
  · cases hfirst
    rfl
  · cases hfirst
    rfl

def thingAskedFor : Spec :=
  ⟨"/things/\x7bid\x7d", "get", .map none [("operationId", .str "getThing"),
    ("parameters", .list none [parameterNode "id" "query", parameterNode "id" "path"])], .map none []⟩

/-- **What is asked of a thing stands in the path for the thing**, since it is declared first. -/
theorem thingAskedFor_misled : ∃ m t, generate thingAskedFor default = .ok m t ∧
    m.arguments.map (fun a => (a.name, a.location, a.pathName)) =
      [("id", "query", some "id"), ("id2", "path", some "id")] ∧
    Script.template? m.pathExpression = some ⟨["/things/".toList, []], ["id".toList]⟩ := by
  obtain ⟨m, t, hrun⟩ := exists_of_succeeds (r := generate thingAskedFor default) (by decide +kernel)
  have hmethod : (match generate thingAskedFor default with
      | .ok m _ => some (m.arguments.map fun a => (a.name, a.location, a.pathName), m.pathExpression)
      | .error .. => none) = some ([("id", "query", some "id"), ("id2", "path", some "id")], "\x60/things/$\x7bid\x7d\x60") := by
    decide +kernel
  simp only [hrun, Option.some.injEq, Prod.mk.injEq] at hmethod
  have hliteral : Emit.pathTemplate? thingAskedFor.path (fun _ => some "id") = some "\x60/things/$\x7bid\x7d\x60" := by decide +kernel
  have hread := Emit.template?_pathTemplate? (fun _ name hname => Option.some.inj hname ▸ by decide) hliteral
  have htexts : (Emit.textsOf (Emit.pathParts thingAskedFor.path)).map Script.lineFeeds = ["/things/".toList, []] := by decide +kernel
  have hholes : Emit.placeholders thingAskedFor.path = ["id"] := by decide +kernel
  rw [htexts, hholes] at hread
  exact ⟨m, t, hrun, hmethod.1, hmethod.2 ▸ hread⟩

end Operation
end TypedClient
