import TypedClient.Proofs.Making.Rules
/-!
# Types — what the making of types and typedefs keeps

A claim that goes through the single steps holds of every type, typedef body and typedef that is made (`does_typeOf`,
`does_generateTypedef`).  What names are entered for a type is known beforehand: a schema under a name of its own asks for one
typedef at most (`Schema.asked?`).
-/
namespace TypedClient

open Codegen (Session Gen)
open Emit (TypeExpr Typedef TypedefBody Field)

namespace Schema

mutual
/-- **The typedef that a schema asks for** under a name of its own: its name, and the place of its schema. -/
def asked? : Schema → Option String → Option (String × Option String)
  | .object info _ _, some name => some (name, info.path)
  | .array _ items, name => askedByItems? items (name.map (· ++ "Item"))
  | _, _ => none

/-- The typedef that the items of an array ask for. -/
def askedByItems? : Option Schema → Option String → Option (String × Option String)
  | some schema, name => asked? schema name
  | none, _ => none
end

mutual
/-- The values that are enumerated in a schema. -/
def listed : Schema → List Node
  | .enumeration _ _ values => values
  | .array _ items => listedByItems items
  | .merge _ members => listedByAll members
  | .object _ properties _ => listedByFields properties
  | .reference _ | .primitive .. | .untyped _ => []

/-- The values that are enumerated in the items of an array. -/
def listedByItems : Option Schema → List Node
  | some schema => listed schema
  | none => []

/-- The values that are enumerated in schemas. -/
def listedByAll : List Schema → List Node
  | [] => []
  | schema :: rest => listed schema ++ listedByAll rest

/-- The values that are enumerated in properties. -/
def listedByFields : List (String × Schema) → List Node
  | [] => []
  | (_, schema) :: rest => listed schema ++ listedByFields rest
end

mutual
/-- What a name has that an array passes on to its items, the name of the typedef has. -/
theorem asked?_of {q : String → Prop} (hitem : ∀ name, q name → q (name ++ "Item")) : ∀ (schema : Schema)
    {name : Option String}, (∀ n, name = some n → q n) → ∀ {n place}, schema.asked? name = some (n, place) → q n
  | .object info properties required, name, hname, n, place, h => by
    cases name with
    | none => cases h
    | some name =>
      cases h
      exact hname _ rfl
  | .array info items, name, hname, n, place, h => by
    refine askedByItems?_of hitem items (fun m hm => ?_) h
    obtain ⟨short, hshort, rfl⟩ := Option.map_eq_some_iff.1 hm
    exact hitem short (hname short hshort)
  | .reference _, _, _, _, _, h => nomatch h
  | .merge .., _, _, _, _, h => nomatch h
  | .enumeration .., _, _, _, _, h => nomatch h
  | .primitive .., _, _, _, _, h => nomatch h
  | .untyped _, _, _, _, _, h => nomatch h

theorem askedByItems?_of {q : String → Prop} (hitem : ∀ name, q name → q (name ++ "Item")) : ∀ (items : Option Schema)
    {name : Option String}, (∀ n, name = some n → q n) → ∀ {n place}, askedByItems? items name = some (n, place) → q n
  | some schema, _, hname, _, _, h => asked?_of hitem schema hname h
  | none, _, _, _, _, h => nomatch h
end

theorem dotless_asked? (schema : Schema) {name : Option String} (hname : ∀ n, name = some n → Dotless n) {n : String}
    {place : Option String} (h : schema.asked? name = some (n, place)) : Dotless n :=
  asked?_of (fun _ hn => hn.append (by decide)) schema hname h

mutual
/-- A schema without a name of its own asks for no typedef. -/
theorem asked?_none : ∀ schema : Schema, schema.asked? none = none
  | .array _ items => askedByItems?_none items
  | .object .. => rfl
  | .reference _ => rfl
  | .merge .. => rfl
  | .enumeration .. => rfl
  | .primitive .. => rfl
  | .untyped _ => rfl

theorem askedByItems?_none : ∀ items : Option Schema, askedByItems? items none = none
  | some schema => asked?_none schema
  | none => rfl
end

end Schema

namespace Making

open Linking (fieldNames bodyNames bodyNames_object namesAll_eq names_primitives Quiet quiet_some quiet_bodyOf scalarBody_eq)

variable {P : Claim} {Asked : String → Option String → Prop} {Listed : Node → Prop}
  {Fails : GenerateError → Session → Prop} {pre waiting owed : List String} {s s' : Session}

/-! ## Types -/

theorem Rules.does_literals (R : Rules P Asked Listed Fails) {values : List Node} (h : ∀ value ∈ values, Listed value) :
    Does P Fails [] (Codegen.literals values) TypeExpr.namesAll := by
  have hnames : TypeExpr.namesAll = fun types => types.flatMap TypeExpr.names := funext namesAll_eq
  rw [hnames]
  refine R.mapM fun value hvalue => ?_
  cases hl : Emit.literal value with
  | ok text => exact R.pure (List.nil_subset _)
  | error cause => exact .throw fun _ _ _ hP => R.literal hP (h value hvalue) hl

theorem Rules.does_enumerationType (R : Rules P Asked Listed Fails) {values : List Node}
    (h : ∀ value ∈ values, Listed value) : Does P Fails [] (Codegen.enumerationType values) TypeExpr.names := by
  unfold Codegen.enumerationType
  split
  · exact R.pure (List.nil_subset _)
  · refine (R.does_literals h).bind fun types => R.pure ?_
    rw [List.append_nil]
    exact List.Subset.refl _

mutual
/-- **The type of a schema is made within the rules**, if it asks for nothing else than what may be asked for. -/
theorem Rules.does_typeOf (R : Rules P Asked Listed Fails) : ∀ (schema : Schema) (name : Option String),
    (∀ n place, schema.asked? name = some (n, place) → Asked n place) → (∀ value ∈ schema.listed, Listed value) →
    Does P Fails [] (Codegen.typeOf schema name) TypeExpr.names
  | .reference pointer, name, _, _ => by
    unfold Codegen.typeOf
    exact R.does_orDefined fun s _ => ((R.does_warn _).andThen fun _ => R.pure (List.nil_subset _)) s
  | .merge info members, name, _, hlisted => by
    unfold Codegen.typeOf
    refine R.does_orDefined fun s _ => ?_
    split
    · exact R.pure (List.nil_subset _) s
    · refine Does.bind (R.does_typesOf members hlisted) (fun types => R.pure ?_) s
      rw [List.append_nil]
      exact List.Subset.refl _
  | .array info items, name, hasked, hlisted => by
    unfold Codegen.typeOf
    refine R.does_orDefined fun s _ => ?_
    refine Does.bind (R.does_itemType items _ hasked hlisted) (fun type => R.pure ?_) s
    rw [List.append_nil]
    exact List.Subset.refl _
  | .object info properties required, name, hasked, hlisted => by
    unfold Codegen.typeOf
    refine R.does_orDefined fun s hp => ?_
    cases name with
    | none => exact R.pure (List.nil_subset _) s
    | some name =>
      have hfields : Does P Fails [] (do return some (.object (← Codegen.fieldsOf required properties))) bodyNames :=
        (R.does_fieldsOf required properties hlisted).bind fun fields => R.pure (by
          rw [bodyNames_object, List.append_nil]
          exact List.Subset.refl _)
      have hentry : DoesAt P Fails [] (Codegen.enterTypedef name info.path info.description
          (do return some (.object (← Codegen.fieldsOf required properties)))) (fun _ => []) s := by
        refine fun waiting owed hfit hP => R.ends_entry (hasked name info.path rfl) hp hfields quiet_some ?_ hfit hP
        exact fun _ _ u _ _ _ hnone => absurd hnone (Linking.ne_none_of_some u u)
      exact hentry.bind fun n u _ => R.pure (List.nil_subset _) u
  | .enumeration info type values, name, _, hlisted => by
    unfold Codegen.typeOf
    exact R.does_orDefined fun s _ => R.does_enumerationType hlisted s
  | .primitive info types, name, _, _ => by
    unfold Codegen.typeOf
    exact R.does_orDefined fun s _ => R.pure (List.nil_subset _) s
  | .untyped info, name, _, _ => by
    unfold Codegen.typeOf
    exact R.does_orDefined fun s _ => R.pure (List.nil_subset _) s

theorem Rules.does_itemType (R : Rules P Asked Listed Fails) : ∀ (items : Option Schema) (name : Option String),
    (∀ n place, Schema.askedByItems? items name = some (n, place) → Asked n place) →
    (∀ value ∈ Schema.listedByItems items, Listed value) → Does P Fails [] (Codegen.itemType items name) TypeExpr.names
  | some schema, name, hasked, hlisted => by
    unfold Codegen.itemType
    exact R.does_typeOf schema name hasked hlisted
  | none, name, _, _ => by
    unfold Codegen.itemType
    exact R.pure (List.nil_subset _)

theorem Rules.does_typesOf (R : Rules P Asked Listed Fails) : ∀ schemas : List Schema,
    (∀ value ∈ Schema.listedByAll schemas, Listed value) →
    Does P Fails [] (Codegen.typesOf schemas) TypeExpr.namesAll
  | [], _ => by
    unfold Codegen.typesOf
    exact R.pure (List.nil_subset _)
  | schema :: rest, hlisted => by
    have hhere := fun value hv => hlisted value (List.mem_append_left _ hv)
    have hrest := fun value hv => hlisted value (List.mem_append_right _ hv)
    unfold Codegen.typesOf
    refine (R.does_typeOf schema none (fun _ _ h => nomatch schema.asked?_none ▸ h) hhere).bind fun type =>
      (R.does_typesOf rest hrest).bind fun types => R.pure ?_
    rw [List.append_nil, TypeExpr.namesAll]
    exact List.append_subset.2 ⟨List.subset_append_right _ _, List.subset_append_left _ _⟩

theorem Rules.does_fieldsOf (R : Rules P Asked Listed Fails) (required : List String) :
    ∀ properties : List (String × Schema), (∀ value ∈ Schema.listedByFields properties, Listed value) →
    Does P Fails [] (Codegen.fieldsOf required properties) fieldNames
  | [], _ => by
    unfold Codegen.fieldsOf
    exact R.pure (List.nil_subset _)
  | (name, schema) :: rest, hlisted => by
    have hhere := fun value hv => hlisted value (List.mem_append_left _ hv)
    have hrest := fun value hv => hlisted value (List.mem_append_right _ hv)
    unfold Codegen.fieldsOf
    refine (R.does_typeOf schema none (fun _ _ h => nomatch schema.asked?_none ▸ h) hhere).bind fun type =>
      (R.does_fieldsOf required rest hrest).bind fun fields => R.pure ?_
    rw [List.append_nil]
    change _ ⊆ type.names ++ fieldNames fields
    exact List.append_subset.2 ⟨List.subset_append_right _ _, List.subset_append_left _ _⟩
end

/-- The type of a schema is resolved within the rules, under a name that is not empty. -/
theorem Rules.does_resolveType (R : Rules P Asked Listed Fails) {schema : Option Schema} {name : String}
    (hasked : ∀ n place, Schema.askedByItems? schema (some name) = some (n, place) → Asked n place)
    (hlisted : ∀ value ∈ Schema.listedByItems schema, Listed value) :
    Does P Fails [] (Codegen.resolveType schema (some name)) TypeExpr.names := by
  unfold Codegen.resolveType
  rw [Option.filter_some]
  split
  · exact R.does_itemType schema _ hasked hlisted
  · exact R.does_itemType schema none (fun _ _ h => nomatch Schema.askedByItems?_none schema ▸ h) hlisted

/-! ## Bodies of typedefs

A claim that has nothing to say of failures goes through whatever is made of the schemas of the components. -/

section Typedefs

theorem FreeRules.does_texts (R : FreeRules P) (values : List Node) :
    Does P (fun _ _ => True) [] (Codegen.texts values) fun _ => [] := by
  have htexts : Does P (fun _ _ => True) [] (Codegen.texts values) fun texts => texts.flatMap fun _ => [] := by
    refine R.mapM fun value _ => ?_
    cases Emit.textOf value with
    | ok text => exact R.pure (List.nil_subset _)
    | error cause => exact .throw fun _ _ _ _ => trivial
  have hnone : (fun texts : List String => texts.flatMap fun _ => ([] : List String)) = fun _ => [] :=
    funext fun texts => List.flatMap_eq_nil_iff.2 fun _ _ => rfl
  rw [hnone] at htexts
  exact htexts

theorem FreeRules.does_memberTypes (R : FreeRules P) {name : String} (hname : Dotless name) :
    ∀ (index : Nat) (schemas : List Schema),
    Does P (fun _ _ => True) [] (Codegen.memberTypes name index schemas) TypeExpr.namesAll
  | _, [] => R.pure (List.nil_subset _)
  | index, schema :: rest => by
    have hmember : ∀ n, some (name ++ "UnionMember" ++ toString index) = some n → Dotless n := by
      rintro n ⟨⟩
      exact (hname.append (by decide)).append (dotless_toString index)
    unfold Codegen.memberTypes
    refine (R.does_typeOf schema _ (fun _ _ => schema.dotless_asked? hmember) fun _ _ => trivial).bind fun type =>
      (FreeRules.does_memberTypes R hname (index + 1) rest).bind fun types => R.pure ?_
    rw [List.append_nil, TypeExpr.namesAll]
    exact List.append_subset.2 ⟨List.subset_append_right _ _, List.subset_append_left _ _⟩

theorem FreeRules.does_scalarBody (R : FreeRules P) {type : Gen TypeExpr}
    (h : Does P (fun _ _ => True) [] type TypeExpr.names) :
    Does P (fun _ _ => True) [] (Codegen.scalarBody type) bodyNames := by
  have hbody : Does P (fun _ _ => True) [] (do return some (.synonym (← type)) : Gen (Option TypedefBody)) bodyNames :=
    h.bind fun t => R.pure (by simp [bodyNames, TypedefBody.names, TypedefBody.types])
  intro s waiting owed hfit hP
  rw [scalarBody_eq]
  split
  · exact hbody s waiting owed hfit hP
  · exact ⟨hfit, hP⟩

theorem FreeRules.does_bodyOf (R : FreeRules P) {name : String} (hname : Dotless name) (schema : Schema) :
    Does P (fun _ _ => True) [] (Codegen.bodyOf name schema) bodyNames := by
  cases schema with
  | reference pointer => exact R.pure (List.nil_subset _)
  | object info properties required =>
    refine (R.does_fieldsOf required properties fun _ _ => trivial).bind fun fields => R.pure ?_
    rw [bodyNames_object, List.append_nil]
    exact List.Subset.refl _
  | array info items =>
    refine (R.does_itemType items none (fun n place h => ?_) fun _ _ => trivial).bind fun item => R.pure ?_
    · exact nomatch Schema.askedByItems?_none items ▸ h
    · simp [bodyNames, TypedefBody.names, TypedefBody.types]
  | merge info members =>
    refine (FreeRules.does_memberTypes R hname 0 members).bind fun types => R.pure ?_
    rw [namesAll_eq, List.append_nil]
    exact List.Subset.refl _
  | enumeration info type values =>
    change Does P _ [] (if type = "string" then _ else _) bodyNames
    split
    · exact (FreeRules.does_texts R values).bind fun _ => R.pure (List.nil_subset _)
    · exact FreeRules.does_scalarBody R (R.does_enumerationType fun _ _ => trivial)
  | primitive info types => exact FreeRules.does_scalarBody R (R.pure (List.nil_subset _))
  | untyped info => exact FreeRules.does_scalarBody R (R.pure (List.nil_subset _))

/-- **The typedef of a named schema is made within the rules**, if the claim allows for its being left without a body. -/
theorem FreeRules.does_generateTypedef (R : FreeRules P) {name : String} (hname : Dotless name) (schema : Schema)
    (hleave : ∀ waiting owed s, Fit s → Entered s name schema.path? → P (name :: waiting) owed s →
      Codegen.bodyOf name schema s = .ok none s → P waiting owed (s.leave name schema.path?)) :
    Does P (fun _ _ => True) [] (Codegen.generateTypedef name schema) fun _ => [] := by
  intro s waiting owed hfit hP
  cases hp : schema.path?.bind s.definitionAt? with
  | some d => exact R.ends_alias hname hp hfit hP
  | none => exact R.ends_entry hname hp (FreeRules.does_bodyOf R hname schema) (quiet_bodyOf name schema) hleave hfit hP

/-- **The typedefs of named schemas are made within the rules.** -/
theorem FreeRules.does_generateTypedefs (R : FreeRules P) : ∀ schemas : List (String × Node),
    (∀ key node schema, (key, node) ∈ schemas → Schema.read? node = some schema → ∀ waiting owed s, Fit s →
      Entered s (Naming.sanitize key) schema.path? → P (Naming.sanitize key :: waiting) owed s →
      Codegen.bodyOf (Naming.sanitize key) schema s = .ok none s →
      P waiting owed (s.leave (Naming.sanitize key) schema.path?)) →
    Does P (fun _ _ => True) [] (Generate.generateTypedefs schemas) fun _ => []
  | [], _ => R.pure (List.nil_subset _)
  | (key, node) :: rest, hleave => by
    have hrest := FreeRules.does_generateTypedefs R rest fun key' node' schema hm =>
      hleave key' node' schema (List.mem_cons_of_mem _ hm)
    unfold Generate.generateTypedefs
    split
    · rename_i schema hschema
      exact (FreeRules.does_generateTypedef R (Naming.plain_sanitize key).dotless schema
        (hleave key node schema List.mem_cons_self hschema)).andThen fun _ => hrest
    · exact (R.does_warn _).andThen fun _ => hrest

end Typedefs

end Making
end TypedClient
