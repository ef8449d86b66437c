import TypedClient.Proofs.Grammar.Meaning
import TypedClient.Proofs.Grammar.Wording
/-!
# Merges — what merged schemas denote

The type of a merge is written as its members' types with `&` between them, and so is the body of its typedef.  Read back, it
denotes what all members have, unless one of several members has alternatives outside of brackets: these are torn apart
(`merge_denotes`).  Where the names in scope and the type names of the document can be read, so can the types of all schemas.
-/
namespace TypedClient

open Codegen (Gen Session)
open Emit (TypeExpr TypedefBody)
open Scope (Tree)

namespace Schema

mutual
/-- The lists of type names that the type of a schema spells out. -/
def spelledTypes : Schema → List (List String)
  | .primitive _ types => [types]
  | .array _ items => spelledByItems items
  | .merge _ members => spelledByAll members
  | .reference _ | .object .. | .enumeration .. | .untyped _ => []

/-- The lists of type names that the type of an array's items spells out. -/
def spelledByItems : Option Schema → List (List String)
  | some schema => spelledTypes schema
  | none => []

/-- The lists of type names that the types of schemas spell out. -/
def spelledByAll : List Schema → List (List String)
  | [] => []
  | schema :: rest => spelledTypes schema ++ spelledByAll rest
end

end Schema

namespace Grammar

/-- Whether a text can be read. -/
def Readable (text : String) : Prop := (read? text).isSome = true

instance (text : String) : Decidable (Readable text) := inferInstanceAs (Decidable (_ = true))

/-- Whether the type names that are spelled out can be read: there is one at least in each list. -/
def Sayable (names : List (List String)) : Prop := ∀ types ∈ names, types ≠ [] ∧ ∀ type ∈ types, Readable type

instance (names : List (List String)) : Decidable (Sayable names) :=
  inferInstanceAs (Decidable (∀ types ∈ names, types ≠ [] ∧ ∀ type ∈ types, Readable type))

variable {text name : String} {texts : List String} {types : List TypeExpr}

/-! ## Texts that can be read -/

theorem readable_iff : Readable text ↔ ∃ r, read? text = some r :=
  Option.isSome_iff_exists

theorem IsAtom.readable (h : IsAtom text) : Readable text :=
  readable_iff.2 ⟨_, h.read?⟩

theorem Readable.array (h : Readable text) : Readable ("Array<" ++ text ++ ">") := by
  obtain ⟨r, hr⟩ := readable_iff.1 h
  exact readable_iff.2 ⟨_, read?_array hr⟩

theorem exists_readAs : ∀ {texts : List String}, (∀ text ∈ texts, Readable text) → ∃ readings, ReadAs texts readings
  | [], _ => ⟨[], .nil⟩
  | text :: texts, h => by
    obtain ⟨r, hr⟩ := readable_iff.1 (h text List.mem_cons_self)
    obtain ⟨rs, hrs⟩ := exists_readAs fun t ht => h t (List.mem_cons_of_mem _ ht)
    exact ⟨r :: rs, .cons hr hrs⟩

theorem readable_union (hne : texts ≠ []) (h : ∀ text ∈ texts, Readable text) : Readable (" | ".intercalate texts) := by
  obtain ⟨readings, hread⟩ := exists_readAs h
  exact readable_iff.2 ⟨_, read?_union hread hne⟩

theorem readable_both (hne : texts ≠ []) (h : ∀ text ∈ texts, Readable text) : Readable (" & ".intercalate texts) := by
  obtain ⟨readings, hread⟩ := exists_readAs h
  exact readable_iff.2 ⟨_, read?_both hread hne⟩

theorem texts_eq_map : ∀ types : List TypeExpr, TypeExpr.texts types = types.map TypeExpr.text
  | [] => rfl
  | type :: types => congrArg (type.text :: ·) (texts_eq_map types)

theorem text_union (types : List TypeExpr) : (TypeExpr.union types).text = " | ".intercalate (types.map TypeExpr.text) := by
  rw [TypeExpr.text, texts_eq_map]

theorem text_both (types : List TypeExpr) : (TypeExpr.both types).text = " & ".intercalate (types.map TypeExpr.text) := by
  rw [TypeExpr.text, texts_eq_map]

theorem readable_any : Readable TypeExpr.any.text := by decide

/-! ## Types that can be read -/

theorem makes_literals (values : List Node) :
    Makes (fun types => (∀ type ∈ types, IsAtom type.text) ∧ (values ≠ [] → types ≠ [])) (Codegen.literals values) := by
  refine Makes.mapM fun value _ => ?_
  cases hl : Emit.literal value with
  | ok text => exact .pure (isAtom_literal hl)
  | error e => exact .throw _

theorem makes_enumerationType (values : List Node) : Makes (fun e => Readable e.text) (Codegen.enumerationType values) := by
  unfold Codegen.enumerationType
  split
  · exact .pure (by decide)
  · rename_i hne
    refine (makes_literals values).bind fun types h => .pure ?_
    rw [text_union]
    refine readable_union (fun hnil => ?_) fun text ht => ?_
    · exact h.2 (fun hvalues => hne (hvalues ▸ rfl)) (List.map_eq_nil_iff.1 hnil)
    · obtain ⟨type, htype, rfl⟩ := List.mem_map.1 ht
      exact (h.1 type htype).readable

theorem readable_primitives {types : List String} (hne : types ≠ []) (h : ∀ type ∈ types, Readable type) :
    Readable (TypeExpr.union (types.map Codegen.primitiveType)).text := by
  rw [text_union]
  refine readable_union (by simpa using hne) fun text ht => ?_
  obtain ⟨e, he, rfl⟩ := List.mem_map.1 ht
  obtain ⟨type, htype, rfl⟩ := List.mem_map.1 he
  unfold Codegen.primitiveType TypeExpr.text
  split
  · decide
  · exact h type htype

theorem makes_orDefined {place : Option String} {otherwise : Gen TypeExpr} {p : Prop}
    (h : Makes (fun e => p → Readable e.text) otherwise) :
    Makes (fun e => p → Readable e.text) (Codegen.orDefined place otherwise) := by
  unfold Codegen.orDefined
  refine (makes_definition? place).bind fun d? hd => ?_
  cases d? with
  | some d => exact (makes_nameOf (hd d rfl)).bind fun name hname => .pure fun _ => hname.readable
  | none => exact h

mutual
/-- **The type of a schema can be read**, if its type names can. -/
theorem makes_typeOf : ∀ (schema : Schema) (name : Option String), (∀ n, name = some n → IsName n) →
    Makes (fun e => Sayable schema.spelledTypes → Readable e.text) (Codegen.typeOf schema name)
  | .reference pointer, name, _ => by
    unfold Codegen.typeOf
    exact makes_orDefined ((makes_warn _).bind fun _ _ => .pure fun _ => readable_any)
  | .merge info members, name, _ => by
    unfold Codegen.typeOf
    refine makes_orDefined ?_
    split
    · exact .pure fun _ => readable_any
    · rename_i hne
      refine (makes_typesOf members).bind fun types h => .pure fun hsayable => ?_
      rw [text_both]
      refine readable_both (fun hnil => ?_) fun text ht => ?_
      · exact h.2 (fun hmembers => hne (hmembers ▸ rfl)) (List.map_eq_nil_iff.1 hnil)
      · obtain ⟨type, htype, rfl⟩ := List.mem_map.1 ht
        exact h.1 hsayable type htype
  | .array info items, name, hname => by
    unfold Codegen.typeOf
    refine makes_orDefined ?_
    have hitem : ∀ n, name.map (· ++ "Item") = some n → IsName n := by
      intro n hn
      obtain ⟨m, hm, rfl⟩ := Option.map_eq_some_iff.1 hn
      exact (hname m hm).append (by decide)
    refine (makes_itemType items _ hitem).bind fun type h => .pure fun hsayable => ?_
    exact (h hsayable).array
  | .object info properties required, name, hname => by
    unfold Codegen.typeOf
    refine makes_orDefined ?_
    cases name with
    | none => exact .pure fun _ => by decide
    | some name =>
      have hbody : Makes (fun _ => True) (do return some (TypedefBody.object (← Codegen.fieldsOf required properties))) :=
        (makes_fieldsOf required properties).bind fun _ _ => .pure trivial
      refine (makes_enterTypedef (hname name rfl).proper hbody).bind fun n hn => .pure fun _ => ?_
      subst hn
      exact (hname n rfl).proper.isAtom.readable
  | .enumeration info type values, name, _ => by
    unfold Codegen.typeOf
    exact makes_orDefined ((makes_enumerationType values).mono fun _ h _ => h)
  | .primitive info types, name, _ => by
    unfold Codegen.typeOf
    refine makes_orDefined (.pure fun hsayable => ?_)
    obtain ⟨hne, hread⟩ := hsayable types List.mem_cons_self
    exact readable_primitives hne hread
  | .untyped info, name, _ => by
    unfold Codegen.typeOf
    exact makes_orDefined (.pure fun _ => readable_any)

theorem makes_itemType : ∀ (items : Option Schema) (name : Option String), (∀ n, name = some n → IsName n) →
    Makes (fun e => Sayable (Schema.spelledByItems items) → Readable e.text) (Codegen.itemType items name)
  | some schema, name, hname => by
    unfold Codegen.itemType
    exact makes_typeOf schema name hname
  | none, name, _ => by
    unfold Codegen.itemType
    exact .pure fun _ => by decide

theorem makes_typesOf : ∀ schemas : List Schema,
    Makes (fun types => (Sayable (Schema.spelledByAll schemas) → ∀ type ∈ types, Readable type.text) ∧
      (schemas ≠ [] → types ≠ [])) (Codegen.typesOf schemas)
  | [] => by
    unfold Codegen.typesOf
    exact .pure ⟨fun _ => nofun, fun h => absurd rfl h⟩
  | schema :: rest => by
    unfold Codegen.typesOf
    refine (makes_typeOf schema none nofun).bind fun type h => (makes_typesOf rest).bind fun types hrest => .pure ?_
    refine ⟨fun hsayable t ht => ?_, fun _ => List.cons_ne_nil _ _⟩
    rcases List.mem_cons.1 ht with rfl | ht
    · exact h fun ts hts => hsayable ts (List.mem_append_left _ hts)
    · exact hrest.1 (fun ts hts => hsayable ts (List.mem_append_right _ hts)) t ht

theorem makes_fieldsOf (required : List String) : ∀ properties : List (String × Schema),
    Makes (fun _ => True) (Codegen.fieldsOf required properties)
  | [] => by
    unfold Codegen.fieldsOf
    exact .pure trivial
  | (name, schema) :: rest => by
    unfold Codegen.fieldsOf
    exact (makes_typeOf schema none nofun).bind fun type _ => (makes_fieldsOf required rest).bind fun _ _ => .pure trivial
end

theorem makes_memberTypes (h : IsName name) : ∀ (index : Nat) (schemas : List Schema),
    Makes (fun types => Sayable (Schema.spelledByAll schemas) → ∀ type ∈ types, Readable type.text)
      (Codegen.memberTypes name index schemas)
  | _, [] => .pure fun _ => nofun
  | index, schema :: rest => by
    have hmember : ∀ n, some (name ++ "UnionMember" ++ toString index) = some n → IsName n := by
      rintro n ⟨⟩
      exact (h.append (by decide)).append (Naming.plain_toString index)
    unfold Codegen.memberTypes
    refine (makes_typeOf schema _ hmember).bind fun type htype =>
      (makes_memberTypes h (index + 1) rest).bind fun types hrest => .pure fun hsayable t ht => ?_
    rcases List.mem_cons.1 ht with rfl | ht
    · exact htype fun ts hts => hsayable ts (List.mem_append_left _ hts)
    · exact hrest (fun ts hts => hsayable ts (List.mem_append_right _ hts)) t ht

/-! ## Merged types -/

theorem typesOf_ne_nil {members : List Schema} {s s' : Session} (hne : members ≠ [])
    (h : Codegen.typesOf members s = .ok types s') : types ≠ [] := by
  cases members with
  | nil => exact absurd rfl hne
  | cons schema rest =>
    unfold Codegen.typesOf at h
    obtain ⟨type, u, -, h⟩ := bind_eq_ok.1 h
    obtain ⟨more, v, -, h⟩ := bind_eq_ok.1 h
    obtain ⟨rfl, -⟩ := pure_eq_ok.1 h
    exact List.cons_ne_nil _ _

theorem merges_members (types : List TypeExpr) :
    Merges (types.map TypeExpr.text) (TypedefBody.members types).text := by
  by_cases hnil : types = []
  · subst hnil
    exact merges_unknown
  · have hne : types.map TypeExpr.text ≠ [] := by simpa using hnil
    intro readings hread
    -- what can be read is not empty, so that the text of the members stands as it is
    have hjoined : (" & ".intercalate (types.map TypeExpr.text)).isEmpty = false := by
      rw [← Bool.not_eq_true, String.isEmpty_iff]
      intro hempty
      have hreading := read?_both hread hne
      rw [hempty] at hreading
      cases hreading
    have htext : (TypedefBody.members types).text = " & ".intercalate (types.map TypeExpr.text) := by
      change Emit.orElseText _ _ = _
      unfold Emit.orElseText
      rw [hjoined]
      rfl
    rw [htext]
    exact merges_both hne readings hread

/-- **The type of a merge denotes what its members' types have in common**, and so does the body of its typedef, as far as the
members' types have no alternatives that are torn apart; the values that all members have are never lost.  The members' types
can be read where the names in scope and the type names of the document can. -/
theorem merge_denotes {s : Session} {info : SchemaInfo} {members : List Schema}
    (hp : info.path.bind s.definitionAt? = none) :
    (∀ name e s', Codegen.resolveType (some (.merge info members)) name s = .ok e s' →
      ∃ types, Codegen.typesOf members s = .ok types s' ∧ Merges (types.map TypeExpr.text) e.text ∧
        (Worded s.shared.scopes → Sayable (Schema.spelledByAll members) → ∀ type ∈ types, Readable type.text)) ∧
    ∀ name n s', Codegen.generateTypedef name (.merge info members) s = .ok n s' →
      ∃ d u types v, Codegen.define name info.path false s = .ok d u ∧
        Codegen.memberTypes name 0 members u = .ok types v ∧
        s'.draft.typedefs = v.draft.typedefs ++ [⟨name, .members types, info.description⟩] ∧
        Merges (types.map TypeExpr.text) (TypedefBody.members types).text ∧
        (Worded s.shared.scopes → IsName name → Sayable (Schema.spelledByAll members) →
          ∀ type ∈ types, Readable type.text) := by
  constructor
  · intro name e s' hresolve
    have he : Codegen.typeOf (.merge info members) (name.filter (!·.isEmpty)) s = .ok e s' := by
      unfold Codegen.resolveType Codegen.itemType at hresolve
      exact hresolve
    unfold Codegen.typeOf at he
    rw [Linking.orDefined_unmade hp] at he
    split at he
    · rename_i hnil
      obtain rfl := List.isEmpty_iff.1 hnil
      obtain ⟨rfl, rfl⟩ := pure_eq_ok.1 he
      exact ⟨[], rfl, merges_any, fun _ _ => nofun⟩
    · rename_i hne
      obtain ⟨types, u, htypes, he⟩ := bind_eq_ok.1 he
      obtain ⟨rfl, rfl⟩ := pure_eq_ok.1 he
      refine ⟨types, htypes, ?_, fun hworded hsayable => ?_⟩
      · have hmembers : types ≠ [] := typesOf_ne_nil (fun hnil => hne (List.isEmpty_iff.2 hnil)) htypes
        rw [text_both]
        exact merges_both (by simpa using hmembers)
      · exact (makes_typesOf members s types u hworded htypes).2.1 hsayable
  · intro name n s' hgenerate
    have hn : Codegen.enterTypedef name info.path info.description
        (Codegen.bodyOf name (.merge info members)) s = .ok n s' := hgenerate
    rw [Codegen.enterTypedef_unmade hp] at hn
    obtain ⟨d, u, hd, hn⟩ := bind_eq_ok.1 hn
    obtain ⟨made, v, hmade, hn⟩ := bind_eq_ok.1 hn
    obtain ⟨types, v', htypes, hmade⟩ := bind_eq_ok.1 hmade
    obtain ⟨rfl, rfl⟩ := pure_eq_ok.1 hmade
    cases hn
    refine ⟨d, u, types, v', hd, htypes, rfl, merges_members types, fun hworded hname hsayable => ?_⟩
    have hu := (makes_define hname.proper info.path false s d u hworded hd).1
    exact (makes_memberTypes hname 0 members u types v' hu htypes).2 hsayable

/-- The module of the component schemas, with a definition of `Pet`. -/
def petSession : Session :=
  ⟨⟨(((Tree.root "").addScope 0 "definitions" (some "definitions.ts")).1.define 1 "Pet" (some "#/components/schemas/Pet")
    true).1, [], []⟩, ⟨"definitions.ts", 1, none, false, [], [], []⟩⟩

/-- What a cat is beside a pet: it has a list of names, some of them missing, and a kind with a mark in it. -/
def catMembers : List Schema :=
  [.reference "#/components/schemas/Pet",
    .merge ⟨none, none⟩ [.untyped ⟨none, none⟩, .array ⟨none, none⟩ (some (.primitive ⟨none, none⟩ ["string", "null"]))],
    .enumeration ⟨none, none⟩ "string" [.str "cat | lynx"]]

/-- What the types of these members are read as. -/
def catReadings : List Reading :=
  [[[.atom "Pet"]], [[.atom "any", .applied "Array" [[.atom "string"], [.atom "null"]]]], [[.atom "\"cat | lynx\""]]]

theorem cat_denotes : ((some "#/Cat").bind petSession.definitionAt?) = none ∧ Worded petSession.shared.scopes ∧
    Sayable (Schema.spelledByAll catMembers) ∧ ∃ e s' n s'' types r,
    Codegen.resolveType (some (.merge ⟨some "#/Cat", none⟩ catMembers)) none petSession = .ok e s' ∧
    Codegen.generateTypedef "Cat" (.merge ⟨some "#/Cat", none⟩ catMembers) petSession = .ok n s'' ∧
    e.text = "Pet & any & Array<string | null> & \"cat | lynx\"" ∧ s''.draft.typedefs.map (·.body.text) = [e.text] ∧
    Codegen.typesOf catMembers petSession = .ok types s' ∧ (∀ type ∈ types, Readable type.text) ∧
    ReadAs (types.map TypeExpr.text) catReadings ∧ read? e.text = some r ∧
    ∀ (V : Type) (I : Interpretation V), meaning I r = ⋂ s ∈ catReadings, meaning I s := by
  have hp : (⟨some "#/Cat", none⟩ : SchemaInfo).path.bind petSession.definitionAt? = none := by decide
  obtain ⟨e, s', he⟩ := exists_of_succeeds
    (r := Codegen.resolveType (some (.merge ⟨some "#/Cat", none⟩ catMembers)) none petSession) (by decide)
  obtain ⟨n, s'', hn⟩ := exists_of_succeeds
    (r := Codegen.generateTypedef "Cat" (.merge ⟨some "#/Cat", none⟩ catMembers) petSession) (by decide)
  have hworded : Worded petSession.shared.scopes := by decide
  have hsayable : Sayable (Schema.spelledByAll catMembers) := by decide
  obtain ⟨types, htypes, hmerges, hreadable⟩ := (merge_denotes hp).1 none e s' he
  have hread : ReadAs (types.map TypeExpr.text) catReadings := by
    cases he
    cases htypes
    exact .cons rfl (.cons rfl (.cons rfl .nil))
  obtain ⟨r, hr, hmeaning⟩ := hmerges catReadings hread
  refine ⟨hp, hworded, hsayable, e, s', n, s'', types, r, he, hn, ?_, ?_, htypes, hreadable hworded hsayable, hread, hr,
    fun V I => (hmeaning V I).2 (.inr (by decide))⟩
  · cases he
    decide
  · cases he
    cases hn
    decide

/-- The modes that two lists have in common. -/
def modeMembers : List Schema :=
  [.enumeration ⟨none, none⟩ "string" [.str "a", .str "b"], .enumeration ⟨none, none⟩ "string" [.str "b", .str "c"]]

/-- What the lists are read as. -/
def modeReadings : List Reading :=
  [[[.atom "\"a\""], [.atom "\"b\""]], [[.atom "\"b\""], [.atom "\"c\""]]]

/-- The interpretation by the texts themselves. -/
def literally : Interpretation String where
  atom text := { value | text = "any" ∨ text = "unknown" ∨ value = text }
  applied _ values := values
  any := by simp
  unknown := by simp

/-- What the merge of the lists is read as. -/
def tornReading : Reading :=
  [[.atom "\"a\""], [.atom "\"b\"", .atom "\"b\""], [.atom "\"c\""]]

/-- **Members with alternatives are torn apart**: `a` and `c` are not in both lists, but the merge of the lists denotes them,
too. -/
theorem modes_torn : ∃ e s' n s'' types s₀,
    Codegen.resolveType (some (.merge ⟨some "#/Mode", none⟩ modeMembers)) none petSession = .ok e s' ∧
    Codegen.generateTypedef "Mode" (.merge ⟨some "#/Mode", none⟩ modeMembers) petSession = .ok n s'' ∧
    Codegen.typesOf modeMembers petSession = .ok types s₀ ∧ ReadAs (types.map TypeExpr.text) modeReadings ∧
    e.text = "\"a\" | \"b\" & \"b\" | \"c\"" ∧ s''.draft.typedefs.map (·.body.text) = [e.text] ∧
    read? e.text = some tornReading ∧
    ¬ ∀ (V : Type) (I : Interpretation V), meaning I tornReading = ⋂ s ∈ modeReadings, meaning I s := by
  refine ⟨_, _, _, _, _, _, rfl, rfl, rfl, .cons rfl (.cons rfl .nil), by decide, by decide, rfl, fun h => ?_⟩
  have ha := Set.ext_iff.1 (h String literally) "\"a\""
  simp [tornReading, modeReadings, meaning, common, Factor.meaning, literally] at ha

end Grammar
end TypedClient
