import TypedClient.Proofs.Making.Partition
import TypedClient.Proofs.Making.Placeholders
/-!
# Parameters — what an operation declares, and where its arguments go

Parameters are declared for a path and for an operation.  Of those with one name and location the last one counts, in the
place of the first (`Merged`).  Each gets an argument of its own, and the query and the headers of a request have one entry
for each parameter that goes there, and no other (`Routed`).
-/
namespace TypedClient
namespace Operation

open Codegen (Session)
open Emit (Argument Method)

/-! ## Declarations -/

/-- The nodes that declare parameters, those of the path first: what is listed and has a text for a name. -/
def Spec.parameterNodes (spec : Spec) : List Node :=
  let listed (node : Node) : List Node := ((node.get? "parameters").bind Node.items?).getD []
  (listed spec.pathItem ++ listed spec.operation).filter fun node => (node.textAt? "name").isSome

/-- **Whether a node declares a parameter**: under its name, and at the location that it names, the query if it names none. -/
structure Declares (node : Node) (p : Parameter) : Prop where
  origin : p.node = node
  name : node.textAt? "name" = some p.name
  location : node.get? "in" = none ∧ p.location = "query" ∨
    ∃ place, node.get? "in" = some place ∧ Emit.textOf place = .ok p.location

/-- Whether a node names a location that has no text. -/
def Unlocated (node : Node) : Prop :=
  ∃ place e, node.get? "in" = some place ∧ Emit.textOf place = .error e

theorem Declares.not_unlocated {node : Node} {p : Parameter} (h : Declares node p) : ¬ Unlocated node := by
  rintro ⟨place, e, hin, htext⟩
  rcases h.location with ⟨hnone, -⟩ | ⟨place', hin', htext'⟩
  · cases hnone.symm.trans hin
  · cases hin.symm.trans hin'
    cases htext.symm.trans htext'

theorem parameter?_of_named {node : Node} {name : String} (h : node.textAt? "name" = some name) :
    (∃ p, parameter? node = .ok (some p) ∧ ∀ q, Declares node q ↔ q = p) ∨
      ∃ e, parameter? node = .error e ∧ Unlocated node := by
  have hdeclares : ∀ {place}, (∀ q : Parameter, (node.get? "in" = none ∧ q.location = "query" ∨
      ∃ x, node.get? "in" = some x ∧ Emit.textOf x = .ok q.location) ↔ q.location = place) →
      ∀ q, Declares node q ↔ q = ⟨name, place, node⟩ := by
    intro place hplace q
    constructor
    · rintro ⟨hnode, hname, hlocation⟩
      cases q
      cases hnode
      cases h.symm.trans hname
      cases (hplace _).1 hlocation
      rfl
    · rintro rfl
      exact ⟨rfl, h, (hplace _).2 rfl⟩
  unfold parameter?
  rw [h]
  dsimp only
  unfold location
  cases hin : node.get? "in" with
  | none => exact .inl ⟨_, rfl, hdeclares fun q => by simp [hin]⟩
  | some place =>
    dsimp only
    cases htext : Emit.textOf place with
    | ok text => exact .inl ⟨_, rfl, hdeclares fun q => by simp [hin, htext, eq_comm]⟩
    | error e => exact .inr ⟨e, rfl, place, e, hin, htext⟩

theorem declared_append (xs ys : List Node) : declared (xs ++ ys) =
    match declared xs, declared ys with
    | .ok ps, .ok qs => .ok (ps ++ qs)
    | .error e, _ | _, .error e => .error e := by
  induction xs with
  | nil =>
    rw [List.nil_append, declared]
    cases declared ys <;> rfl
  | cons x xs ih =>
    rw [List.cons_append, declared, declared, ih]
    cases parameter? x with
    | error e => rfl
    | ok p =>
      cases declared xs with
      | error e => rfl
      | ok ps =>
        cases declared ys with
        | error e => rfl
        | ok qs => exact congrArg Except.ok (List.append_assoc _ _ _).symm

/-- **What nodes declare**: a parameter for each that has a name; there is no answer if a location has no text. -/
theorem declared_cases : ∀ nodes : List Node,
    (∃ ps, declared nodes = .ok ps ∧
      ∀ qs, List.Forall₂ Declares (nodes.filter fun node => (node.textAt? "name").isSome) qs ↔ qs = ps) ∨
    ∃ e, declared nodes = .error e ∧ ∃ node ∈ nodes.filter fun node => (node.textAt? "name").isSome, Unlocated node
  | [] => .inl ⟨[], rfl, fun qs => List.forall₂_nil_left_iff⟩
  | node :: rest => by
    have ih := declared_cases rest
    rw [declared]
    cases hname : node.textAt? "name" with
    | none =>
      have hskip : parameter? node = .ok none := by
        unfold parameter?
        rw [hname]
      rw [List.filter_cons_of_neg (by rw [hname]; exact Bool.false_ne_true), hskip]
      rcases ih with ⟨ps, hps, hiff⟩ | ⟨e, he, hbad⟩
      · rw [hps]
        exact .inl ⟨ps, rfl, hiff⟩
      · rw [he]
        exact .inr ⟨e, rfl, hbad⟩
    | some name =>
      rw [List.filter_cons_of_pos (by rw [hname]; rfl)]
      rcases parameter?_of_named hname with ⟨p, hp, hone⟩ | ⟨e, he, hbad⟩
      · rw [hp]
        rcases ih with ⟨ps, hps, hiff⟩ | ⟨e, he, other, hother, hbad⟩
        · rw [hps]
          refine .inl ⟨p :: ps, rfl, fun qs => ?_⟩
          rw [List.forall₂_cons_left_iff]
          constructor
          · rintro ⟨q, more, hq, hmore, rfl⟩
            rw [(hone q).1 hq, (hiff more).1 hmore]
          · rintro rfl
            exact ⟨p, ps, (hone p).2 rfl, (hiff ps).2 rfl, rfl⟩
        · rw [he]
          exact .inr ⟨e, rfl, other, List.mem_cons_of_mem _ hother, hbad⟩
      · rw [he]
        exact .inr ⟨e, rfl, node, List.mem_cons_self, hbad⟩

/-! ## Merging -/

/-- **Whether parameters are what declarations come to**: one for each name and location, in the order of the first
declarations, and each as it is declared last. -/
structure Merged (all merged : List Parameter) : Prop where
  keys : merged.map Parameter.key = dropRepeats (all.map Parameter.key)
  latest : ∀ p ∈ merged, ∃ before after, all = before ++ p :: after ∧ p.key ∉ after.map Parameter.key

theorem Merged.nodup {all merged : List Parameter} (h : Merged all merged) : (merged.map Parameter.key).Nodup :=
  h.keys ▸ nodup_dropRepeats _

theorem mem_declare {p q : Parameter} : ∀ {ps : List Parameter}, (ps.map Parameter.key).Nodup → q ∈ declare ps p →
    q = p ∨ q ∈ ps ∧ q.key ≠ p.key
  | [], _, hq => .inl (List.mem_singleton.1 hq)
  | r :: rest, hps, hq => by
    have hsame : (r.name = p.name && r.location = p.location) = true ↔ r.key = p.key := by
      simp [Parameter.key]
    rw [List.map_cons, List.nodup_cons] at hps
    rw [declare] at hq
    by_cases hr : (r.name = p.name && r.location = p.location) = true
    · rw [if_pos hr] at hq
      refine (List.mem_cons.1 hq).imp_right fun hrest => ⟨List.mem_cons_of_mem _ hrest, fun hkey => ?_⟩
      exact hps.1 (((hsame.1 hr).trans hkey.symm) ▸ List.mem_map_of_mem hrest)
    · rw [if_neg hr] at hq
      rcases List.mem_cons.1 hq with rfl | hrest
      · exact .inr ⟨List.mem_cons_self, fun hkey => hr (hsame.2 hkey)⟩
      · exact (mem_declare hps.2 hrest).imp_right (And.imp_left (List.mem_cons_of_mem _))

/-- One more declaration. -/
theorem Merged.declare {all merged : List Parameter} (h : Merged all merged) (p : Parameter) :
    Merged (all ++ [p]) (declare merged p) where
  keys := by
    rw [keys_declare, h.keys, List.map_append, List.map_singleton, dropRepeats_concat]
    simp only [List.contains_iff_mem]
  latest q hq := by
    rcases mem_declare h.nodup hq with rfl | ⟨hq, hne⟩
    · exact ⟨all, [], rfl, List.not_mem_nil⟩
    · obtain ⟨before, after, rfl, hafter⟩ := h.latest q hq
      refine ⟨before, after ++ [p], by rw [List.append_assoc, List.cons_append], ?_⟩
      rw [List.map_append, List.map_singleton, List.mem_append, List.mem_singleton]
      exact not_or.2 ⟨hafter, hne⟩

theorem merged_foldl (all : List Parameter) : Merged all (all.foldl declare []) := by
  induction all using List.reverseRecOn with
  | nil => exact ⟨rfl, nofun⟩
  | append_singleton all p ih =>
    rw [List.foldl_append]
    exact ih.declare p

/-- A parameter is found from the end on. -/
theorem Merged.find? {all merged : List Parameter} (h : Merged all merged) {p : Parameter} (hp : p ∈ merged) :
    all.reverse.find? (·.key == p.key) = some p := by
  obtain ⟨before, after, rfl, hafter⟩ := h.latest p hp
  have hnone : after.reverse.find? (·.key == p.key) = none := by
    refine List.find?_eq_none.2 fun q hq heq => hafter ?_
    exact beq_iff_eq.1 heq ▸ List.mem_map_of_mem (List.mem_reverse.1 hq)
  rw [List.reverse_append, List.reverse_cons, List.append_assoc, List.find?_append, hnone, Option.none_or,
    List.singleton_append, List.find?_cons, beq_self_eq_true]

/-- **Declarations come to one list of parameters.** -/
theorem Merged.eq {all merged merged' : List Parameter} (h : Merged all merged) (h' : Merged all merged') :
    merged = merged' := by
  have hself : ∀ {ps}, Merged all ps →
      ps = (ps.map Parameter.key).filterMap fun key => all.reverse.find? (·.key == key) := by
    intro ps hps
    rw [List.filterMap_map]
    exact (List.filterMap_some.symm.trans (List.filterMap_congr fun p hp => (hps.find? hp).symm))
  rw [hself h, hself h', h.keys, h'.keys]

theorem parameters_eq (spec : Spec) : spec.parameters =
    (declared (((spec.pathItem.get? "parameters").bind Node.items?).getD [] ++
      ((spec.operation.get? "parameters").bind Node.items?).getD [])).map (·.foldl declare []) := by
  rw [declared_append]
  unfold Spec.parameters parametersOf
  cases declared (((spec.pathItem.get? "parameters").bind Node.items?).getD []) with
  | error e => rfl
  | ok ps => cases declared (((spec.operation.get? "parameters").bind Node.items?).getD []) <;> rfl

/-- **The parameters of an operation** are what its declarations come to. -/
theorem parameters_eq_ok_iff {spec : Spec} {merged : List Parameter} : spec.parameters = .ok merged ↔
    ∃ all, List.Forall₂ Declares spec.parameterNodes all ∧ Merged all merged := by
  rw [parameters_eq]
  rcases declared_cases (((spec.pathItem.get? "parameters").bind Node.items?).getD [] ++
      ((spec.operation.get? "parameters").bind Node.items?).getD []) with ⟨ps, hps, hiff⟩ | ⟨e, he, node, hnode, hbad⟩
  · rw [hps]
    constructor
    · rintro ⟨⟩
      exact ⟨ps, (hiff ps).2 rfl, merged_foldl ps⟩
    · rintro ⟨all, hall, hmerged⟩
      cases (hiff all).1 hall
      exact congrArg Except.ok ((merged_foldl ps).eq hmerged)
  · rw [he]
    refine ⟨nofun, ?_⟩
    rintro ⟨all, hall, -⟩
    obtain ⟨p, -, hp⟩ := (exists_of_forall₂ hall).1 node hnode
    exact absurd hbad hp.not_unlocated

theorem parameters_eq_error_iff {spec : Spec} :
    (∃ e, spec.parameters = .error e) ↔ ∃ node ∈ spec.parameterNodes, Unlocated node := by
  constructor
  · rintro ⟨e, h⟩
    rw [parameters_eq] at h
    rcases declared_cases (((spec.pathItem.get? "parameters").bind Node.items?).getD [] ++
        ((spec.operation.get? "parameters").bind Node.items?).getD []) with ⟨ps, hps, -⟩ | ⟨e', -, hbad⟩
    · rw [hps] at h
      cases h
    · exact hbad
  · rintro ⟨node, hnode, hbad⟩
    cases h : spec.parameters with
    | error e => exact ⟨e, rfl⟩
    | ok merged =>
      obtain ⟨all, hall, -⟩ := parameters_eq_ok_iff.1 h
      obtain ⟨p, -, hp⟩ := (exists_of_forall₂ hall).1 node hnode
      exact absurd hbad hp.not_unlocated

/-! ## Arguments -/

/-- Whether a parameter has to be given: the ones of the path, and those that say so. -/
def Parameter.required (p : Parameter) : Bool :=
  p.location == "path" || ((p.node.get? "required").map Node.truth).getD false

/-- **Whether an argument fills a parameter**: it is for its name and location, and is required if the parameter is. -/
structure Fills (p : Parameter) (a : Argument) : Prop where
  pathName : a.pathName = some p.name
  location : a.location = p.location
  required : a.required = p.required
  isOptional : a.isOptional = false

theorem fills_argumentOf {operationName : String} {used : List String} {p : Parameter} {a : Argument} {s t : Session}
    (h : argumentOf operationName used p s = .ok a t) : Fills p a := by
  unfold argumentOf at h
  obtain ⟨_, u, -, h⟩ := bind_eq_ok.1 h
  obtain ⟨type, u', -, h⟩ := bind_eq_ok.1 h
  obtain ⟨rfl, -⟩ := pure_eq_ok.1 h
  exact ⟨rfl, rfl, rfl, rfl⟩

theorem fills_argumentsOf {operationName : String} : ∀ {ps : List Parameter} {used : List String}
    {arguments : List Argument} {s t : Session}, argumentsOf operationName used ps s = .ok arguments t →
    List.Forall₂ Fills ps arguments
  | [], used, arguments, s, t, h => by
    obtain ⟨rfl, -⟩ := pure_eq_ok.1 h
    exact .nil
  | p :: rest, used, arguments, s, t, h => by
    unfold argumentsOf at h
    obtain ⟨a, u, ha, h⟩ := bind_eq_ok.1 h
    obtain ⟨more, u', hmore, h⟩ := bind_eq_ok.1 h
    obtain ⟨rfl, -⟩ := pure_eq_ok.1 h
    exact .cons (fills_argumentOf ha) (fills_argumentsOf hmore)

/-- Whether the body of the request has to be given. -/
def Spec.bodyRequired (spec : Spec) : Bool :=
  ((((spec.operation.get? "requestBody").getD .null).get? "required").map Node.truth).getD false

theorem bodyArgument?_fields {spec : Spec} {operationName : String} {used : List String} {body : Option Argument}
    {s t : Session} (h : bodyArgument? spec.operation operationName used s = .ok body t) :
    ∀ a ∈ body.toList, a.location = "body" ∧ a.required = spec.bodyRequired ∧ a.isOptional = false := by
  unfold bodyArgument? at h
  cases hm : mediaSchema? ((spec.operation.get? "requestBody").getD .null) "application/json" with
  | none =>
    simp only [hm] at h
    obtain ⟨rfl, -⟩ := pure_eq_ok.1 h
    exact nofun
  | some node =>
    simp only [hm] at h
    obtain ⟨type, u, -, h⟩ := bind_eq_ok.1 h
    obtain ⟨rfl, -⟩ := pure_eq_ok.1 h
    intro a ha
    cases List.mem_singleton.1 ha
    exact ⟨rfl, rfl, rfl⟩

/-- **Arguments at a location other than the body's** are those of the parameters there, one for each and in their order. -/
theorem Beside.argumentsAt {place : String} {declared : List Parameter} {arguments : List Argument}
    (h : Beside declared arguments) (hrest : ∀ a ∈ arguments.drop declared.length, a.location ≠ place) :
    List.Forall₂ (fun p a => (p, a) ∈ declared.zip arguments ∧ a.pathName = some p.name)
      (declared.filter (·.location == place)) (arguments.filter (·.location == place)) := by
  induction h with
  | @rest arguments h =>
    have hnone : arguments.filter (·.location == place) = [] :=
      List.filter_eq_nil_iff.2 fun a ha heq => hrest a ha (beq_iff_eq.1 heq)
    rw [hnone]
    exact .nil
  | @cons p a declared arguments hname hlocation h ih =>
    have htail := (ih hrest).imp fun q b (hb : _ ∧ _) => And.intro (List.mem_cons_of_mem (p, a) hb.1) hb.2
    rw [List.filter_cons, List.filter_cons, hlocation, List.zip_cons_cons]
    split
    · exact .cons ⟨List.mem_cons_self, hname⟩ htail
    · exact htail

theorem map_markOptional {β : Type} {f : Argument → β} (hf : ∀ a flag, f { a with isOptional := flag } = f a) :
    ∀ arguments : List Argument, (markOptional arguments).map f = arguments.map f
  | [] => rfl
  | a :: rest => by rw [markOptional, List.map_cons, List.map_cons, hf, map_markOptional hf rest]

/-- **Where the arguments of a method go.**  Each parameter has an argument, no two of which have the same name.  Of the query
and the headers there is one entry for each parameter that goes there, under its name and with its argument, and no other. -/
structure Routed (merged : List Parameter) (m : Method) : Prop where
  beside : Beside merged m.arguments
  names : (m.arguments.map (·.name)).Nodup
  entries : ∀ place ≠ "body", List.Forall₂ (fun p a => (p, a) ∈ merged.zip m.arguments ∧ a.pathName = some p.name)
    (merged.filter (·.location == place)) (m.argumentsAt place)

theorem routed_method {spec : Spec} {made : Prepared} {s t : Session} (h : spec.prepare s = .ok made t) (text : String) :
    Routed made.declared (made.method spec text) := by
  obtain ⟨u₁, u₂, -, hparameters, hbody, -⟩ := prepare_eq_ok h
  obtain ⟨hbeside, -, hnames⟩ := arguments_of_prepare h
  refine ⟨hbeside.markOptional, (names_markOptional _).symm ▸ (List.nodup_cons.1 hnames).2, fun place hplace => ?_⟩
  refine hbeside.markOptional.argumentsAt fun a ha heq => ?_
  -- what comes behind the arguments of the parameters is the one for the body
  have hbehind : made.arguments.drop made.declared.length = made.body.toList :=
    List.drop_left' (fills_argumentsOf hparameters).length_eq.symm
  have hlocation : a.location ∈ made.body.toList.map (·.location) := by
    rw [← hbehind, List.map_drop, ← map_markOptional (f := (·.location)) fun _ _ => rfl, ← List.map_drop]
    exact List.mem_map_of_mem ha
  obtain ⟨b, hb, hsame⟩ := List.mem_map.1 hlocation
  exact hplace (heq.symm.trans (hsame.symm.trans (bodyArgument?_fields hbody b hb).1))

/-- **What becomes of the parameters of an operation.**  They are what the declarations for its path and for itself come to,
unless a location has no text; and in every method that is made of it, the query and the headers have their parameters. -/
theorem parameters_routed (spec : Spec) :
    (∀ merged, spec.parameters = .ok merged ↔
      ∃ all, List.Forall₂ Declares spec.parameterNodes all ∧ Merged all merged) ∧
    ((∃ e, spec.parameters = .error e) ↔ ∃ node ∈ spec.parameterNodes, Unlocated node) ∧
    ∀ s m t, generate spec s = .ok m t → ∃ merged, spec.parameters = .ok merged ∧ Routed merged m := by
  refine ⟨fun merged => parameters_eq_ok_iff, parameters_eq_error_iff, fun s m t h => ?_⟩
  obtain ⟨made, u, text, hmade, -, rfl⟩ := generate_inv h
  obtain ⟨_, _, hdeclared, -, -, -⟩ := prepare_eq_ok hmade
  exact ⟨made.declared, hdeclared, routed_method hmade text⟩

/-- A listing.  The limit is declared for the path, and again with the operation, where a header has its name; the order is
declared at no location, and what is only a text declares nothing. -/
def thingsInOrder : Spec :=
  ⟨"/things", "get",
    .map none [("parameters", .list none [parameterNode "limit" "header",
      .map none [("name", .str "limit"), ("in", .str "query"), ("required", .bool true)]])],
    .map none [("parameters", .list none [parameterNode "limit" "query", .str "page",
      .map none [("name", .str "order")]])]⟩

theorem thingsInOrder_routed : ∃ m t merged, generate thingsInOrder default = .ok m t ∧
    thingsInOrder.parameters = .ok merged ∧ Routed merged m ∧
    (m.argumentsAt "query").map (fun a => (a.pathName, a.name, a.required)) =
      [(some "limit", "limit", true), (some "order", "order", false)] ∧
    (m.argumentsAt "header").map (fun a => (a.pathName, a.name, a.required)) = [(some "limit", "limit2", false)] := by
  obtain ⟨m, t, hrun⟩ := exists_of_succeeds (r := generate thingsInOrder default) (by decide +kernel)
  obtain ⟨merged, hmerged, hrouted⟩ := (parameters_routed thingsInOrder).2.2 default m t hrun
  have hentries : (match generate thingsInOrder default with
      | .ok m _ => some (["query", "header"].map fun place =>
          (m.argumentsAt place).map fun a => (a.pathName, a.name, a.required))
      | .error .. => none) = some [[(some "limit", "limit", true), (some "order", "order", false)],
        [(some "limit", "limit2", false)]] := by
    decide +kernel
  simp only [hrun, List.map_cons, List.map_nil, Option.some.injEq, List.cons.injEq, and_true] at hentries
  exact ⟨m, t, merged, hrun, hmerged, hrouted, hentries⟩

end Operation
end TypedClient
