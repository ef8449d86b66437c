import TypedClient.Proofs.Response.Dispatch
import TypedClient.Proofs.Script.Accessors
/-!
# Unwrapping — what an unwrapped body is

The steps to a schema inside another also lead to a value inside a body.  Behind a step into the items of an array there is a
value for every element, so that the expression for the steps comes to an array of what the steps lead to, to an array of such
arrays behind two of these steps, and so on (`value?_ofSteps`).  The type that a method is declared to return is made from the
schema at the end of the steps, however many arrays they go through.
-/
namespace TypedClient

/-! ## Values of a schema -/

namespace Schema

/-- Whether a schema is made of other schemas. -/
def isComposed : Schema → Bool
  | .object .. | .array .. | .merge .. => true
  | _ => false

/-- **Whether a value is of a schema.**  An object constrains its declared properties, an array every element; `plain` says it
for the schemas that are not made of others. -/
inductive Conforms (plain : Schema → Node → Prop) : Schema → Node → Prop where
  | object {info : SchemaInfo} {properties : List (String × Schema)} {required : List String} {path : Option String}
    {entries : List (String × Node)}
    (h : ∀ name schema x, properties.lookup name = some schema → entries.lookup name = some x → Conforms plain schema x) :
    Conforms plain (.object info properties required) (.map path entries)
  | array {info : SchemaInfo} {items : Option Schema} {path : Option String} {values : List Node}
    (h : ∀ schema x, items = some schema → x ∈ values → Conforms plain schema x) :
    Conforms plain (.array info items) (.list path values)
  | merge {info : SchemaInfo} {members : List Schema} {v : Node} (h : ∀ schema ∈ members, Conforms plain schema v) :
    Conforms plain (.merge info members) v
  | plain {schema : Schema} {v : Node} (hs : schema.isComposed = false) (h : plain schema v) : Conforms plain schema v

/-- Whether a value has the property at every step to a property. -/
def HasHops : List Step → Node → Prop
  | [], _ => True
  | .property name :: rest, v => ∃ x, v.get? name = some x ∧ HasHops rest x
  | .items _ :: rest, v => ∀ path values, v = .list path values → ∀ x ∈ values, HasHops rest x

/-- Arrays of a schema, so many inside one another. -/
def arrayed : Nat → Schema → Schema
  | 0, schema => schema
  | depth + 1, schema => .array ⟨none, none⟩ (some (arrayed depth schema))

/-- How many steps go into the items of an array. -/
def itemSteps : List Step → Nat
  | [] => 0
  | .property _ :: rest => itemSteps rest
  | .items _ :: rest => itemSteps rest + 1

variable {plain : Schema → Node → Prop}

theorem Conforms.of_object {info : SchemaInfo} {properties : List (String × Schema)} {required : List String} {v : Node}
    (h : Conforms plain (.object info properties required) v) {name : String} {schema : Schema} {x : Node}
    (hs : properties.lookup name = some schema) (hx : v.get? name = some x) : Conforms plain schema x := by
  cases h with
  | object h => exact h name schema x hs hx
  | plain hs _ => cases hs

theorem Conforms.of_array {info : SchemaInfo} {schema : Schema} {v : Node}
    (h : Conforms plain (.array info (some schema)) v) :
    ∃ path values, v = .list path values ∧ ∀ x ∈ values, Conforms plain schema x := by
  cases h with
  | array h => exact ⟨_, _, rfl, fun x hx => h schema x rfl hx⟩
  | plain hs _ => cases hs

end Schema

/-! ## Values of an accessor -/

open Schema (Conforms HasHops arrayed itemSteps followSegments followPath Step)
open Emit (Access Unwrapping)

variable {plain : Schema → Node → Prop}

theorem exists_mapM {α β : Type} {f : α → Option β} {p : β → Prop} : ∀ {xs : List α},
    (∀ x ∈ xs, ∃ y, f x = some y ∧ p y) → ∃ ys, xs.mapM f = some ys ∧ ∀ y ∈ ys, p y
  | [], _ => ⟨[], rfl, by simp⟩
  | x :: xs, h => by
    obtain ⟨y, hy, hp⟩ := h x List.mem_cons_self
    obtain ⟨ys, hys, hps⟩ := exists_mapM fun x hx => h x (List.mem_cons_of_mem _ hx)
    refine ⟨y :: ys, by simp [List.mapM_cons, hy, hys], ?_⟩
    simp only [List.forall_mem_cons]
    exact ⟨hp, hps⟩

/-- Steps that lead from every element of a list to what conforms to a schema lead from the list to an array of it. -/
theorem value?_items {base : Access} {named : String → Option Node} {steps : List Step} {segment : String}
    {path : Option String} {values : List Node} {reached : Schema} (depth : Nat)
    (hbase : base.value? named = some (.list path values))
    (helements : ∀ x ∈ values, ∃ w, (Access.ofSteps (.named (Access.itemName depth)) steps (depth + 1)).value?
      (fun name => if name = Access.itemName depth then some x else named name) = some w ∧ Conforms plain reached w) :
    ∃ w, (Access.ofSteps base (.items segment :: steps) depth).value? named = some w ∧
      Conforms plain (arrayed 1 reached) w := by
  rw [Access.ofSteps]
  split
  · -- nothing happens to the elements: each of them is already what the steps lead to
    rename_i hbody
    refine ⟨_, hbase, .array fun schema x hs hx => ?_⟩
    cases hs
    obtain ⟨w, hw, hconforms⟩ := helements x hx
    rw [hbody, Access.value?, if_pos rfl] at hw
    cases hw
    exact hconforms
  · obtain ⟨ws, hws, hconforms⟩ := exists_mapM helements
    refine ⟨.list none ws, by rw [Access.value?, hbase]; simp only [hws, Option.map_some], .array fun schema w hs hw => ?_⟩
    cases hs
    exact hconforms w hw

/-- **The expression for the steps to a schema comes to a value of that schema**, in an array for every step into items. -/
theorem value?_ofSteps : ∀ {segments : List String} {schema target : Schema} {steps : List Step} {v : Node} {base : Access}
    {named : String → Option Node} (depth : Nat), followSegments (some schema) segments = some (some target, steps) →
    Conforms plain schema v → HasHops steps v → base.value? named = some v →
    ∃ w, (Access.ofSteps base steps depth).value? named = some w ∧ Conforms plain (arrayed (itemSteps steps) target) w
  | [], schema, target, steps, v, base, named, depth, h, hv, _, hbase => by
    cases h
    exact ⟨v, hbase, hv⟩
  | segment :: rest, .object info properties required, target, steps, v, base, named, depth, h, hv, hhops, hbase => by
    rw [followSegments] at h
    cases hp : properties.lookup segment with
    | none =>
      rw [hp] at h
      cases h
    | some next =>
      rw [hp] at h
      obtain ⟨⟨target', steps'⟩, hrest, h⟩ := Option.map_eq_some_iff.1 h
      cases h
      obtain ⟨x, hx, hhops⟩ := hhops
      have hfield : (Access.field base segment).value? named = some x := by
        rw [Access.value?, hbase]
        exact hx
      change ∃ w, (Access.ofSteps (.field base segment) steps' depth).value? named = some w ∧
        Conforms plain (arrayed (itemSteps steps') target) w
      exact value?_ofSteps depth hrest (hv.of_object hp hx) hhops hfield
  | segment :: rest, .array info items, target, steps, v, base, named, depth, h, hv, hhops, hbase => by
    cases items with
    | none =>
      simp only [followSegments] at h
      cases h
    | some next =>
      simp only [followSegments] at h
      obtain ⟨⟨target', steps'⟩, hrest, h⟩ := Option.map_eq_some_iff.1 h
      cases h
      obtain ⟨path, values, rfl, hvalues⟩ := hv.of_array
      have helements : ∀ x ∈ values, ∃ w, (Access.ofSteps (.named (Access.itemName depth)) steps' (depth + 1)).value?
          (fun name => if name = Access.itemName depth then some x else named name) = some w ∧
          Conforms plain (arrayed (itemSteps steps') target) w := fun x hx =>
        value?_ofSteps (depth + 1) hrest (hvalues x hx) (hhops path values rfl x hx) (by rw [Access.value?, if_pos rfl])
      exact value?_items depth hbase helements
  | _ :: _, .reference _, _, _, _, _, _, _, h, _, _, _ | _ :: _, .enumeration .., _, _, _, _, _, _, h, _, _, _
  | _ :: _, .merge .., _, _, _, _, _, _, h, _, _, _ | _ :: _, .primitive .., _, _, _, _, _, _, h, _, _, _
  | _ :: _, .untyped _, _, _, _, _, _, _, h, _, _, _ => by
    simp only [followSegments] at h
    cases h

namespace Operation

open Codegen (Session resolveType)

/-- **An unwrapped body is an array of what the steps lead to, for every array they go through**: the text that unwraps it reads
as an expression that comes to such a value.  Its declared type is made from what the steps lead to.  So the declared type
describes the value where the path goes through no array. -/
theorem unwrapped_arrayed {schema target : Schema} {path : String} {steps : List Step}
    (hpath : followPath (some schema) path = .ok (some target, steps)) :
    (∀ (plain : Schema → Node → Prop) (v : Node) (t : Unwrapping), Conforms plain schema v → HasHops steps v →
      t.steps = steps → ∃ e, Script.read? t.accessor.text = some e ∧
        ∀ named : String → Option Node, (named "res").bind (·.get? "data") = some v → ∃ w, e.value? named = some w ∧
          Conforms plain (arrayed (itemSteps steps) target) w ∧ (itemSteps steps = 0 → Conforms plain target w)) ∧
    ∀ (operationName key contentType : String) (declared : List String) (several : Bool) (media : Node) (s s' : Session)
      (type : Emit.TypeExpr) (found : Option Unwrapping), media.textAt? unwrapKey = some path → path ≠ "" →
      (media.get? "schema").bind Schema.read? = some schema →
      bodyType operationName key declared several contentType media s = .ok (type, found) s' →
      ∃ name u t, resolveType (some target) (some name) u = .ok type s' ∧ found = some t ∧ t.steps = steps := by
  constructor
  · rintro plain v t hv hhops rfl
    unfold followPath at hpath
    cases hfollow : followSegments (some schema) (Text.splitAt '.' path) with
    | none =>
      rw [hfollow] at hpath
      cases hpath
    | some found =>
      rw [hfollow] at hpath
      cases hpath
      refine ⟨t.accessor.expr, Emit.read?_accessor t, fun named hbody => ?_⟩
      have hbase : (Access.named "res.data").value? (Emit.asNamed named) = some v := hbody
      obtain ⟨w, hw, hconforms⟩ := value?_ofSteps 0 hfollow hv hhops hbase
      refine ⟨w, (Access.value?_expr (Emit.spelled_accessor t)).trans hw, hconforms, fun h => ?_⟩
      rwa [h] at hconforms
  · intro operationName key contentType declared several media s s' type found hkey hne hschema hrun
    obtain ⟨unwrapping, name, u, hunwrap, htype, hfound⟩ := bodyType_eq_ok hrun
    have hasked : (media.textAt? unwrapKey).filter (!·.isEmpty) = some path := by
      rw [hkey, Option.filter_some, if_pos (by simpa [String.isEmpty_iff] using hne)]
    rw [unwrap?, hasked, hschema] at hunwrap
    simp only [hpath] at hunwrap
    cases hunwrap
    rw [hschema] at htype
    exact ⟨name, u, _, htype, hfound, rfl⟩

/-- A list of things that have names. -/
def things : Schema :=
  .object ⟨none, none⟩ [("data", .array ⟨none, none⟩ (some (.object ⟨none, none⟩
    [("name", .primitive ⟨none, none⟩ ["string"])] [])))] []

/-- One thing in a list. -/
def oneThing : Node := .map none [("data", .list none [.map none [("name", .str "lamp")]])]

/-- What the types of scalars say of a value. -/
def ofType : Schema → Node → Prop
  | .primitive _ types, .str _ => "string" ∈ types
  | .primitive _ types, .bool _ => "boolean" ∈ types
  | .primitive _ types, .int _ => "integer" ∈ types ∨ "number" ∈ types
  | .primitive _ types, .float _ => "number" ∈ types
  | .primitive _ types, .null => "null" ∈ types
  | .primitive _ _, _ => False
  | .enumeration _ _ values, v => ∃ x ∈ values, x.same v = true
  | _, _ => True

theorem oneThing_conforms : Conforms ofType things oneThing := by
  refine .object fun name schema x hs hx => ?_
  simp only [List.lookup_cons, List.lookup_nil] at hs hx
  split at hs
  · cases hs
    rename_i hname
    rw [hname] at hx
    cases hx
    refine .array fun schema x hs hx => ?_
    cases hs
    obtain rfl := List.mem_singleton.1 hx
    refine .object fun name schema x hs hx => ?_
    simp only [List.lookup_cons, List.lookup_nil] at hs hx
    split at hs
    · cases hs
      rename_i hname
      rw [hname] at hx
      cases hx
      exact .plain rfl List.mem_cons_self
    · cases hs
  · cases hs

theorem oneThing_hasHops : HasHops [.property "data", .items "each", .property "name"] oneThing := by
  refine ⟨_, rfl, fun path values h x hx => ?_⟩
  cases h
  obtain rfl := List.mem_singleton.1 hx
  exact ⟨_, rfl, trivial⟩

/-- The names of all things in an answer. -/
def allNames : Unwrapping :=
  ⟨"200", "application/json", "data.each.name", [.property "data", .items "each", .property "name"], []⟩

theorem oneThing_unwrapped : ∃ e w, Script.read? allNames.accessor.text = some e ∧
    e.value? (fun name => if name = "res" then some (.map none [("data", oneThing)]) else none) = some w ∧
    Conforms ofType (.array ⟨none, none⟩ (some (.primitive ⟨none, none⟩ ["string"]))) w := by
  have hpath : followPath (some things) "data.each.name" =
    .ok (some (.primitive ⟨none, none⟩ ["string"]), [.property "data", .items "each", .property "name"]) := by rfl
  obtain ⟨e, hread, hvalue⟩ := (unwrapped_arrayed hpath).1 ofType oneThing allNames oneThing_conforms oneThing_hasHops rfl
  obtain ⟨w, hw, hconforms, -⟩ := hvalue (fun name => if name = "res" then some (.map none [("data", oneThing)]) else none) rfl
  exact ⟨e, w, hread, hw, hconforms⟩

/-- A call that answers with the names of all things. -/
def thingNames : Spec :=
  let thing : Node := .map none [("type", .str "object"),
    ("properties", .map none [("name", .map none [("type", .str "string")])])]
  let schema : Node := .map none [("type", .str "object"),
    ("properties", .map none [("data", .map none [("type", .str "array"), ("items", thing)])])]
  ⟨"/things", "get", .map none [("responses", .map none [("200", .map none [("content", .map none
    [("application/json", .map none [(unwrapKey, .str "data.each.name"), ("schema", schema)])])])])], .map none []⟩

/-- **The names come in a list, but a single one is declared.** -/
theorem thingNames_misdescribed : ∃ method t,
    generate thingNames default = .ok method t ∧ method.returnType.text = "string" ∧
    method.unwrappings = [allNames] ∧
    followPath (some things) "data.each.name" =
      .ok (some (.primitive ⟨none, none⟩ ["string"]), [.property "data", .items "each", .property "name"]) ∧
    Conforms ofType things oneThing ∧ HasHops [.property "data", .items "each", .property "name"] oneThing ∧
    (∃ e, Script.read? allNames.accessor.text = some e ∧ ∀ named : String → Option Node,
      (named "res").bind (·.get? "data") = some oneThing → e.value? named = some (.list none [.str "lamp"])) ∧
    ¬ Conforms ofType (.primitive ⟨none, none⟩ ["string"]) (.list none [.str "lamp"]) := by
  obtain ⟨method, t, hrun⟩ := exists_of_succeeds (r := generate thingNames default) (by decide +kernel)
  have hmethod : (match generate thingNames default with
      | .ok method _ => some (method.returnType.text, method.unwrappings)
      | .error .. => none) = some ("string", [allNames]) := by
    decide +kernel
  simp only [hrun, Option.some.injEq, Prod.mk.injEq] at hmethod
  obtain ⟨htype, hunwrappings⟩ := hmethod
  refine ⟨method, t, hrun, htype, hunwrappings, rfl, oneThing_conforms, oneThing_hasHops, ?_, ?_⟩
  · refine ⟨_, Emit.read?_accessor allNames, fun named hbody => ?_⟩
    rw [Access.value?_expr (Emit.spelled_accessor allNames)]
    exact Emit.value?_of_follow? allNames.steps _ _ (by decide) hbody rfl
  · intro h
    cases h with
    | plain _ h => exact h

end Operation
end TypedClient
