import TypedClient.Proofs.Making.Labels
/-!
# Asking — what names a computation asks a module for

Types of schemas that no definition is made from yet are spelled out, but for an object with a name: that is defined, in the
order in which the objects are met.  So a computation **asks** for a list of names, with the places of their schemas (`Asks`).
It meets a conflict exactly if these are not free in the module, or are not different from each other (`Free`).
-/
namespace TypedClient

open Codegen (Session Gen)
open Emit (TypeExpr TypedefBody)
open Scope (Symbol Tree)

namespace Schema

mutual
/-- The places of a schema and of what it is made of. -/
def places : Schema → List String
  | .reference pointer => [pointer]
  | .merge info members => info.path.toList ++ placesByAll members
  | .array info items => info.path.toList ++ placesByItems items
  | .object info properties _ => info.path.toList ++ placesByFields properties
  | .enumeration info .. | .primitive info _ | .untyped info => info.path.toList

def placesByItems : Option Schema → List String
  | some schema => places schema
  | none => []

def placesByAll : List Schema → List String
  | [] => []
  | schema :: rest => places schema ++ placesByAll rest

def placesByFields : List (String × Schema) → List String
  | [] => []
  | (_, schema) :: rest => places schema ++ placesByFields rest
end

mutual
theorem place_of_asked? : ∀ (schema : Schema) {name : Option String} {n p : String},
    schema.asked? name = some (n, some p) → p ∈ schema.places
  | .object info properties required, name, n, p, h => by
    cases name with
    | none => cases h
    | some name =>
      have hpath : info.path = some p := (Prod.mk.inj (Option.some.inj h)).2
      rw [places, hpath]
      exact List.mem_cons_self
  | .array info items, name, n, p, h => List.mem_append_right _ (place_of_askedByItems? items h)
  | .reference _, _, _, _, h => nomatch h
  | .merge .., _, _, _, h => nomatch h
  | .enumeration .., _, _, _, h => nomatch h
  | .primitive .., _, _, _, h => nomatch h
  | .untyped _, _, _, _, h => nomatch h

theorem place_of_askedByItems? : ∀ (items : Option Schema) {name : Option String} {n p : String},
    askedByItems? items name = some (n, some p) → p ∈ placesByItems items
  | some schema, _, _, _, h => place_of_asked? schema h
  | none, _, _, _, h => nomatch h
end

end Schema

namespace Making

variable {α β : Type} {s t u : Session} {m : Gen α} {k : α → Gen β} {asked more : List (String × Option String)}
  {places others : List String} {name : String} {place : Option String}

/-! ## Free names -/

/-- **Whether a definition of a name meets a conflict**: the name is taken in the module, or its qualified name in the root. -/
def Taken (s : Session) (name : String) : Prop :=
  name ∈ (s.shared.scopes.table s.draft.scope).map Symbol.localName ∨
    Tree.qualify (s.shared.scopes.get s.draft.scope).name name ∈ (s.shared.scopes.table 0).map Symbol.localName

/-- **Whether names can be defined one after the other.** -/
structure Free (s : Session) (names : List String) : Prop where
  nodup : names.Nodup
  untaken : ∀ n ∈ names, ¬ Taken s n

theorem free_nil (s : Session) : Free s [] := ⟨.nil, nofun⟩

/-- **What becomes of a session by definitions**: their names are taken, and their places have a definition. -/
structure Occupies (asked : List (String × Option String)) (s t : Session) : Prop where
  fit : Fit t
  taken : ∀ n, Taken t n ↔ Taken s n ∨ n ∈ asked.map (·.1)
  vacant : ∀ p, s.shared.scopes.Vacant (some p) → (∀ a ∈ asked, a.2 ≠ some p) → t.shared.scopes.Vacant (some p)

theorem Occupies.trans (h : Occupies asked s t) (h' : Occupies more t u) : Occupies (asked ++ more) s u where
  fit := h'.fit
  taken n := by rw [h'.taken, h.taken, List.map_append, List.mem_append, or_assoc]
  vacant p hp hne := h'.vacant p (h.vacant p hp fun a ha => hne a (List.mem_append_left _ ha))
    fun a ha => hne a (List.mem_append_right _ ha)

theorem Occupies.free_append (h : Occupies asked s t) (hfree : Free s (asked.map (·.1))) :
    Free s ((asked ++ more).map (·.1)) ↔ Free t (more.map (·.1)) := by
  rw [List.map_append]
  constructor
  · rintro ⟨hnodup, huntaken⟩
    obtain ⟨-, hmore, hne⟩ := List.nodup_append.1 hnodup
    refine ⟨hmore, fun n hn htaken => ?_⟩
    rcases (h.taken n).1 htaken with htaken | hn'
    · exact huntaken n (List.mem_append_right _ hn) htaken
    · exact hne n hn' n hn rfl
  · rintro ⟨hnodup, huntaken⟩
    have hnot : ∀ n ∈ more.map (·.1), ¬ Taken s n ∧ n ∉ asked.map (·.1) := fun n hn =>
      not_or.1 fun hor => huntaken n hn ((h.taken n).2 hor)
    refine ⟨List.nodup_append.2 ⟨hfree.nodup, hnodup, ?_⟩, fun n hn => ?_⟩
    · rintro n hn m hm rfl
      exact (hnot n hm).2 hn
    · exact (List.mem_append.1 hn).elim (hfree.untaken n) fun hn => (hnot n hn).1

/-! ## Computations that ask for names -/

/-- **What a computation asks for**, where there is no definition for the places it meets, and it meets each of those it asks a
name for once: if the names are free it defines them, and a conflict says that they are not. -/
def Asks (asked : List (String × Option String)) (places : List String) (m : Gen α) : Prop :=
  ∀ s, Fit s → (∀ p ∈ places, s.shared.scopes.Vacant (some p)) → (∀ a ∈ asked, ∀ p, a.2 = some p → places.count p ≤ 1) →
    Comes (fun _ t => Free s (asked.map (·.1)) ∧ Occupies asked s t)
      (fun e _ => ∀ c, e = .conflict c → ¬ Free s (asked.map (·.1))) (m s)

theorem Asks.widen (h : Asks asked places m) (others : List String) : Asks asked (others ++ places) m := by
  intro s hfit hvacant honce
  refine h s hfit (fun p hp => hvacant p (List.mem_append_right _ hp)) fun a ha p hp => ?_
  have hcount := honce a ha p hp
  rw [List.count_append] at hcount
  omega

/-- **One computation after another** asks for the names of both. -/
theorem Asks.bind (hplaced : ∀ a ∈ asked, ∀ p, a.2 = some p → p ∈ places) (hm : Asks asked places m)
    (hk : ∀ a, Asks more others (k a)) : Asks (asked ++ more) (places ++ others) (m >>= k) := by
  intro s hfit hvacant honce
  have hcount : ∀ a ∈ asked ++ more, ∀ p, a.2 = some p → places.count p + others.count p ≤ 1 := by
    intro a ha p hp
    rw [← List.count_append]
    exact honce a ha p hp
  have hfirst := hm s hfit (fun p hp => hvacant p (List.mem_append_left _ hp))
    fun a ha p hp => (Nat.le_add_right _ _).trans (hcount a (List.mem_append_left _ ha) p hp)
  refine bind_cases (fun a u hr => ?_) fun e u hr => ?_
  · rw [hr] at hfirst
    obtain ⟨hfree, hoccupies⟩ := hfirst
    -- a place that has got a definition would be met again, and count twice
    have hvacant' : ∀ p ∈ others, u.shared.scopes.Vacant (some p) := by
      intro p hp
      refine hoccupies.vacant p (hvacant p (List.mem_append_right _ hp)) fun b hb heq => ?_
      have hpos := List.count_pos_iff.2 (hplaced b hb p heq)
      have hpos' := List.count_pos_iff.2 hp
      have hle := hcount b (List.mem_append_left _ hb) p heq
      omega
    have hsecond := hk a u hoccupies.fit hvacant' fun b hb p hp =>
      (Nat.le_add_left _ _).trans (hcount b (List.mem_append_right _ hb) p hp)
    cases hr' : k a u with
    | ok b v =>
      rw [hr'] at hsecond
      exact ⟨(hoccupies.free_append hfree).2 hsecond.1, hoccupies.trans hsecond.2⟩
    | error e v =>
      rw [hr'] at hsecond
      exact fun c hc hall => hsecond c hc ((hoccupies.free_append hfree).1 hall)
  · rw [hr] at hfirst
    refine fun c hc hall => hfirst c hc ⟨?_, fun n hn => hall.untaken n ?_⟩
    · exact (List.nodup_append.1 (List.map_append ▸ hall.nodup)).1
    · rw [List.map_append]
      exact List.mem_append_left _ hn

/-- **A computation that asks for nothing**: the scopes are left as they are, and there is no conflict. -/
theorem asks_nothing (h : ∀ s, Comes (fun _ t => t.shared.scopes = s.shared.scopes ∧ t.draft.scope = s.draft.scope)
    (fun e _ => ∀ c, e ≠ .conflict c) (m s)) (places : List String) : Asks [] places m := by
  intro s hfit hvacant _
  have hm := h s
  cases hr : m s with
  | ok a t =>
    rw [hr] at hm
    obtain ⟨hscopes, hscope⟩ := hm
    refine ⟨free_nil s, ⟨by rw [hscopes]; exact hfit.sound, by rw [hscopes, hscope]; exact hfit.isModule⟩, fun n => ?_,
      fun p hp _ => by rw [hscopes]; exact hp⟩
    rw [Taken, Taken, hscopes, hscope, List.map_nil, or_iff_left List.not_mem_nil]
  | error e t =>
    rw [hr] at hm
    exact fun c hc => absurd hc (hm c)

theorem asks_pure (a : α) (places : List String) : Asks [] places (pure a : Gen α) :=
  asks_nothing (m := pure a) (fun _ => ⟨rfl, rfl⟩) places

theorem asks_throw {e : GenerateError} (h : ∀ c, e ≠ .conflict c) (places : List String) :
    Asks [] places (throw e : Gen α) :=
  asks_nothing (m := throw e) (fun _ => h) places

theorem asks_warn (message : String) (places : List String) : Asks [] places (Codegen.warn message) :=
  asks_nothing (m := Codegen.warn message) (fun _ => ⟨rfl, rfl⟩) places

theorem asks_warnIf (reason : Bool) (message : String) (places : List String) :
    Asks [] places (Codegen.warnIf reason message) := by
  unfold Codegen.warnIf
  cases reason with
  | true => exact asks_warn message places
  | false => exact asks_pure () places

theorem asks_addTypedef (t : Emit.Typedef) (places : List String) : Asks [] places (Codegen.addTypedef t) :=
  asks_nothing (m := Codegen.addTypedef t) (fun _ => ⟨rfl, rfl⟩) places

theorem asks_addMethod (method : Emit.Method) (places : List String) : Asks [] places (Codegen.addMethod method) :=
  asks_nothing (m := Codegen.addMethod method) (fun _ => ⟨rfl, rfl⟩) places

theorem Asks.after {places : List String} (hm : Asks [] [] m) (hk : ∀ a, Asks asked places (k a)) :
    Asks asked places (m >>= k) :=
  hm.bind (fun _ ha => absurd ha List.not_mem_nil) hk

theorem Asks.andThen (hplaced : ∀ a ∈ asked, ∀ p, a.2 = some p → p ∈ places) (hm : Asks asked places m)
    (hk : ∀ a, Asks [] [] (k a)) : Asks asked places (m >>= k) := by
  have h := hm.bind hplaced hk
  rwa [List.append_nil, List.append_nil] at h

theorem asks_mapM {γ : Type} {f : γ → Gen α} (h : ∀ x, Asks [] [] (f x)) : ∀ xs : List γ, Asks [] [] (xs.mapM f)
  | [] => by
    rw [List.mapM_nil]
    exact asks_pure _ _
  | x :: xs => by
    rw [List.mapM_cons]
    exact (h x).after fun a => (asks_mapM h xs).after fun as => asks_pure _ _

/-! ## Definitions -/

theorem definitionAt?_of_vacant (place : Option String) (hfit : Fit s) (h : ∀ p, place = some p → s.shared.scopes.Vacant (some p)) :
    place.bind s.definitionAt? = none := by
  cases hfound : place.bind s.definitionAt? with
  | none => rfl
  | some d =>
    obtain ⟨p, rfl, hp⟩ := Linking.exists_place hfound
    obtain ⟨home, e, hf⟩ := Codegen.found_of_definitionAt? hfit.sound hfit.isModule hp
    cases hf with
    | own he hplace => exact absurd hplace (h p rfl _ hfit.isModule.1 _ he p rfl)
    | foreign h0 _ he hplace => exact absurd hplace (h p rfl _ h0 _ he p rfl)

/-- **After a definition, its name is taken**, and no other one that was not. -/
theorem taken_define {d : Scope.Definition} {isPublic : Bool} (hfit : Fit s)
    (hs : Codegen.define name place isPublic s = .ok d t) (n : String) : Taken t n ↔ Taken s n ∨ n = name := by
  obtain ⟨tree, htree, rfl⟩ := Codegen.define_eq_ok hs
  obtain ⟨rfl, -, -, hg⟩ := hfit.sound.define_ok hfit.isModule htree
  have hown : (tree.table s.draft.scope).map Symbol.localName =
      (s.shared.scopes.table s.draft.scope).map Symbol.localName ++ [name] := by
    rw [hg.table, Tree.definedSymbols, if_pos rfl, List.map_append]
    rfl
  have hroot : (tree.table 0).map Symbol.localName =
      (s.shared.scopes.table 0).map Symbol.localName ++ [Tree.qualify (s.shared.scopes.get s.draft.scope).name name] := by
    rw [hg.table, Tree.definedSymbols, if_neg (Ne.symm hfit.isModule.1), if_pos rfl, List.map_append]
    rfl
  have hqualify : Tree.qualify (s.shared.scopes.get s.draft.scope).name n =
      Tree.qualify (s.shared.scopes.get s.draft.scope).name name ↔ n = name := String.append_right_inj _
  change n ∈ (tree.table s.draft.scope).map Symbol.localName ∨
    Tree.qualify (tree.get s.draft.scope).name n ∈ (tree.table 0).map Symbol.localName ↔ _
  rw [hg.name, hown, hroot, List.mem_append, List.mem_append, List.mem_singleton, List.mem_singleton, hqualify, Taken]
  tauto

theorem asks_define (hname : Dotless name) (place : Option String) :
    Asks [(name, place)] place.toList (Codegen.define name place false) := by
  intro s hfit hvacant _
  have hp := definitionAt?_of_vacant place hfit fun p hp => hvacant p (Option.mem_toList.2 hp)
  rcases hfit.define_cases name place false with ⟨c, t, ht, htaken⟩ | ⟨hown, hroot, d, t, ht⟩
  · rw [ht]
    exact fun _ _ hfree => hfree.untaken name List.mem_cons_self htaken
  · rw [ht]
    refine ⟨⟨List.nodup_singleton _, ?_⟩, hfit.define hname hp ht, fun n => ?_, fun p hp' hne => ?_⟩
    · rw [List.map_singleton, List.forall_mem_singleton]
      exact not_or.2 ⟨hown, hroot⟩
    · rw [taken_define hfit ht, List.map_singleton, List.mem_singleton]
    · obtain ⟨tree, htree, rfl⟩ := Codegen.define_eq_ok ht
      intro home h0 e he q hq
      cases hq
      rcases hfit.sound.defined_of_define hfit.isModule htree h0 he with he | ⟨-, heq⟩
      · exact hp' home h0 e he p rfl
      · cases heq
        obtain ⟨rfl, -⟩ := hfit.sound.define_ok hfit.isModule htree
        exact hne _ List.mem_cons_self

/-! ## Types -/

theorem Asks.orDefined {otherwise : Gen TypeExpr} (hplace : ∀ p, place = some p → p ∈ places)
    (h : Asks asked places otherwise) : Asks asked places (Codegen.orDefined place otherwise) := by
  intro s hfit hvacant honce
  rw [Linking.orDefined_unmade (definitionAt?_of_vacant place hfit fun p hp => hvacant p (hplace p hp))]
  exact h s hfit hvacant honce

/-- The typedef of an object is entered, and its body made, which asks for nothing. -/
theorem asks_enterTypedef {description : Option String} {body : Gen (Option TypedefBody)} (hname : Dotless name)
    (hbody : Asks [] places body) :
    Asks [(name, place)] (place.toList ++ places) (Codegen.enterTypedef name place description body) := by
  have hplaced : ∀ a ∈ [(name, place)], ∀ p, a.2 = some p → p ∈ place.toList := by
    intro a ha p hp
    cases List.mem_singleton.1 ha
    exact Option.mem_toList.2 hp
  intro s hfit hvacant honce
  have hp := definitionAt?_of_vacant place hfit fun p hp =>
    hvacant p (List.mem_append_left _ (Option.mem_toList.2 hp))
  rw [Codegen.enterTypedef_unmade hp]
  refine ((asks_define hname place).bind hplaced fun _ =>
    hbody.andThen (fun _ ha => absurd ha List.not_mem_nil) ?_) s hfit hvacant honce
  rintro (_ | b)
  · refine asks_nothing (fun u => ?_) []
    have hleave := Codegen.leave_eq name place u
    dsimp only at hleave ⊢
    rw [hleave]
    exact ⟨rfl, rfl⟩
  · exact (asks_addTypedef _ []).after fun _ => asks_pure _ []

theorem asks_enumerationType (values : List Node) : Asks [] [] (Codegen.enumerationType values) := by
  unfold Codegen.enumerationType
  split
  · exact asks_pure _ _
  · refine (asks_mapM (fun value => ?_) values).after fun types => asks_pure _ _
    split
    · exact asks_pure _ _
    · refine asks_throw (fun c h => ?_) _
      cases h

open Schema in
mutual
/-- **What the type of a schema asks for.** -/
theorem asks_typeOf : ∀ (schema : Schema) {name : Option String}, (∀ n, name = some n → Dotless n) →
    Asks (schema.asked? name).toList schema.places (Codegen.typeOf schema name)
  | .reference pointer, name, _ => by
    unfold Codegen.typeOf
    refine Asks.orDefined (fun p hp => ?_) ((asks_warn _ _).after fun _ => asks_pure _ _)
    cases hp
    exact List.mem_cons_self
  | .merge info members, name, _ => by
    unfold Codegen.typeOf
    refine Asks.orDefined (fun p hp => List.mem_append_left _ (Option.mem_toList.2 hp)) (Asks.widen ?_ _)
    split
    · exact asks_pure _ _
    · exact (asks_typesOf members).andThen (fun _ ha => absurd ha List.not_mem_nil) fun types => asks_pure _ _
  | .array info items, name, hname => by
    unfold Codegen.typeOf
    refine Asks.orDefined (fun p hp => List.mem_append_left _ (Option.mem_toList.2 hp)) (Asks.widen ?_ _)
    refine (asks_itemType items fun n hn => ?_).andThen ?_ fun type => asks_pure _ _
    · obtain ⟨short, hshort, rfl⟩ := Option.map_eq_some_iff.1 hn
      exact (hname short hshort).append (by decide)
    · rintro ⟨n, q⟩ ha p rfl
      exact place_of_askedByItems? items (Option.mem_toList.1 ha)
  | .object info properties required, name, hname => by
    unfold Codegen.typeOf
    refine Asks.orDefined (fun p hp => List.mem_append_left _ (Option.mem_toList.2 hp)) ?_
    cases name with
    | none => exact asks_pure _ _
    | some name =>
      -- the fields have no names of their own
      have hbody : Asks [] (placesByFields properties)
          (do return some (.object (← Codegen.fieldsOf required properties)) : Gen (Option TypedefBody)) :=
        (asks_fieldsOf required properties).andThen (fun _ ha => absurd ha List.not_mem_nil) fun fields => asks_pure _ _
      refine (asks_enterTypedef (hname name rfl) hbody).andThen ?_ fun made => asks_pure _ _
      intro a ha p hp
      cases List.mem_singleton.1 ha
      exact List.mem_append_left _ (Option.mem_toList.2 hp)
  | .enumeration info type values, name, _ => by
    unfold Codegen.typeOf
    have h := (asks_enumerationType values).widen info.path.toList
    rw [List.append_nil] at h
    exact h.orDefined fun p hp => Option.mem_toList.2 hp
  | .primitive info types, name, _ => by
    unfold Codegen.typeOf
    exact (asks_pure _ _).orDefined fun p hp => Option.mem_toList.2 hp
  | .untyped info, name, _ => by
    unfold Codegen.typeOf
    exact (asks_pure _ _).orDefined fun p hp => Option.mem_toList.2 hp

theorem asks_itemType : ∀ (items : Option Schema) {name : Option String}, (∀ n, name = some n → Dotless n) →
    Asks (askedByItems? items name).toList (placesByItems items) (Codegen.itemType items name)
  | some schema, name, hname => by
    unfold Codegen.itemType
    exact asks_typeOf schema hname
  | none, name, _ => by
    unfold Codegen.itemType
    exact asks_pure _ _

theorem asks_typesOf : ∀ schemas : List Schema, Asks [] (placesByAll schemas) (Codegen.typesOf schemas)
  | [] => by
    unfold Codegen.typesOf
    exact asks_pure _ _
  | schema :: rest => by
    have hfirst : Asks (schema.asked? none).toList schema.places (Codegen.typeOf schema none) := asks_typeOf schema nofun
    rw [schema.asked?_none] at hfirst
    unfold Codegen.typesOf
    exact hfirst.bind (fun _ ha => absurd ha List.not_mem_nil) fun type =>
      (asks_typesOf rest).andThen (fun _ ha => absurd ha List.not_mem_nil) fun types => asks_pure _ _

theorem asks_fieldsOf (required : List String) : ∀ properties : List (String × Schema),
    Asks [] (placesByFields properties) (Codegen.fieldsOf required properties)
  | [] => by
    unfold Codegen.fieldsOf
    exact asks_pure _ _
  | (name, schema) :: rest => by
    have hfirst : Asks (schema.asked? none).toList schema.places (Codegen.typeOf schema none) := asks_typeOf schema nofun
    rw [schema.asked?_none] at hfirst
    unfold Codegen.fieldsOf
    exact hfirst.bind (fun _ ha => absurd ha List.not_mem_nil) fun type =>
      (asks_fieldsOf required rest).andThen (fun _ ha => absurd ha List.not_mem_nil) fun fields => asks_pure _ _
end

/-! ## Operations -/

section Operations

open Operation

variable {needs needs' : List (Option Schema × String)} {operationName : String}

/-- The typedefs that schemas ask for, each under a name of its own. -/
def askedBy (needs : List (Option Schema × String)) : List (String × Option String) :=
  needs.filterMap fun need => Schema.askedByItems? need.1 (some need.2)

/-- The places of schemas, and of what they are made of. -/
def placesOf (needs : List (Option Schema × String)) : List String :=
  needs.flatMap fun need => Schema.placesByItems need.1

/-- **Whether a computation serves needs**: it asks for what the schemas ask for under these names. -/
def Serves (needs : List (Option Schema × String)) (m : Gen α) : Prop :=
  Asks (askedBy needs) (placesOf needs) m

theorem Serves.bind (hm : Serves needs m) (hk : ∀ a, Serves needs' (k a)) : Serves (needs ++ needs') (m >>= k) := by
  have hplaced : ∀ a ∈ askedBy needs, ∀ p, a.2 = some p → p ∈ placesOf needs := by
    rintro ⟨n, q⟩ ha p rfl
    obtain ⟨need, hneed, hasked⟩ := List.mem_filterMap.1 ha
    exact List.mem_flatMap.2 ⟨need, hneed, Schema.place_of_askedByItems? need.1 hasked⟩
  unfold Serves askedBy placesOf
  rw [List.filterMap_append, List.flatMap_append]
  exact Asks.bind hplaced hm hk

theorem Serves.andThen (hm : Serves needs m) (hk : ∀ a, Serves [] (k a)) : Serves needs (m >>= k) :=
  List.append_nil needs ▸ hm.bind hk

theorem Serves.after (hm : Serves [] m) (hk : ∀ a, Serves needs (k a)) : Serves needs (m >>= k) :=
  hm.bind hk

theorem serves_pure (a : α) : Serves [] (pure a : Gen α) :=
  asks_pure a []

theorem serves_resolveType (schema : Option Schema) (hname : Naming.Plain name) (hne : name ≠ "") :
    Serves [(schema, name)] (Codegen.resolveType schema (some name)) := by
  have h : Asks (Schema.askedByItems? schema (some name)).toList (Schema.placesByItems schema)
      (Codegen.itemType schema (some name)) := by
    refine asks_itemType schema fun n hn => ?_
    cases hn
    exact hname.dotless
  have hasked : askedBy [(schema, name)] = (Schema.askedByItems? schema (some name)).toList := by
    unfold askedBy
    rw [List.filterMap_cons]
    cases Schema.askedByItems? schema (some name) <;> rfl
  have hplaces : placesOf [(schema, name)] = Schema.placesByItems schema := List.flatMap_singleton _ _
  unfold Serves Codegen.resolveType
  rw [hasked, hplaces, Option.filter_some, String.isEmpty_eq_false_iff.2 hne]
  exact h

theorem append_ne_empty {front back : String} (h : back ≠ "") : front ++ back ≠ "" :=
  fun heq => h (String.append_eq_empty_iff.1 heq).2

def parameterNeed (operationName : String) (p : Parameter) : Option Schema × String :=
  ((p.node.get? "schema").bind Schema.read?, parameterType operationName p)

theorem serves_argumentsOf (hname : Naming.Plain operationName) : ∀ (used : List String) (ps : List Parameter),
    Serves (ps.map (parameterNeed operationName)) (argumentsOf operationName used ps)
  | _, [] => serves_pure _
  | used, p :: rest => by
    have hone : Serves [parameterNeed operationName p] (argumentOf operationName used p) := by
      unfold argumentOf
      exact Serves.after (asks_warnIf _ _ []) fun _ => (serves_resolveType _ (plain_parameterType hname p)
        (append_ne_empty (by decide))).andThen fun type => serves_pure _
    unfold argumentsOf
    exact hone.bind fun a => (serves_argumentsOf hname _ rest).andThen fun arguments => serves_pure _

theorem serves_bodyArgument? (hname : Naming.Plain operationName) (operation : Node) (used : List String) :
    Serves ((mediaSchema? ((operation.get? "requestBody").getD .null) "application/json").toList.map fun node =>
      (Schema.read? node, requestType operationName)) (bodyArgument? operation operationName used) := by
  unfold bodyArgument?
  dsimp only
  cases mediaSchema? ((operation.get? "requestBody").getD .null) "application/json" with
  | none => exact serves_pure _
  | some node =>
    exact (serves_resolveType _ (plain_requestType hname) (append_ne_empty (by decide))).andThen fun type =>
      serves_pure _

/-- What the type of a body needs, if it can be unwrapped. -/
def bodyNeed? (operationName key : String) (several : Bool) (entry : String × Node) : Option (Option Schema × String) :=
  match unwrap? (mediaSchema entry.2) entry.2 with
  | .ok found => some (returned (mediaSchema entry.2) found, responseType operationName key several entry.1)
  | .error _ => none

theorem serves_bodyType (hname : Naming.Plain operationName) (key : String) (declared : List String) (several : Bool)
    (contentType : String) (media : Node) : Serves (bodyNeed? operationName key several (contentType, media)).toList
      (bodyType operationName key declared several contentType media) := by
  unfold bodyType
  refine Serves.after (asks_warnIf _ _ []) fun _ => ?_
  unfold bodyNeed?
  dsimp only
  unfold mediaSchema
  cases unwrap? ((media.get? "schema").bind Schema.read?) media with
  | error e => exact asks_throw (fun _ h => by cases h) []
  | ok found =>
    exact (serves_resolveType _ (plain_responseType hname key several contentType)
      (append_ne_empty (by decide))).andThen fun type => serves_pure _

theorem serves_bodyTypes (hname : Naming.Plain operationName) (key : String) (declared : List String) (several : Bool) :
    ∀ content : List (String × Node), Serves (content.filterMap (bodyNeed? operationName key several))
      (bodyTypes operationName key declared several content)
  | [] => serves_pure _
  | (contentType, media) :: rest => by
    have hrest := serves_bodyTypes hname key declared several rest
    unfold bodyTypes
    rw [List.filterMap_eq_flatMap_toList, List.flatMap_cons, ← List.filterMap_eq_flatMap_toList]
    split
    · exact (serves_bodyType hname key declared several contentType media).bind fun found =>
        hrest.andThen fun more => serves_pure _
    · rename_i hmap
      -- a media type that is no mapping has no schema, which asks for nothing
      cases media with
      | map path entries => exact absurd rfl hmap
      | null | bool _ | int _ | float _ | str _ | other _ | list _ _ => exact hrest

def answerNeeds (operationName : String) (answer : String × Node) : List (Option Schema × String) :=
  (contentOf answer.2).filterMap (bodyNeed? operationName answer.1 ((contentOf answer.2).length > 1))

theorem serves_responseTypes (hname : Naming.Plain operationName) (declared : List String) :
    ∀ responses : List (String × Node), Serves (responses.flatMap (answerNeeds operationName))
      (responseTypes operationName declared responses)
  | [] => serves_pure _
  | (key, response) :: rest => by
    have hrest := serves_responseTypes hname declared rest
    unfold responseTypes
    rw [List.flatMap_cons, answerNeeds, contentOf]
    dsimp only
    cases (response.get? "content").bind Node.entries? with
    | none => exact hrest
    | some content =>
      exact (serves_bodyTypes hname key declared _ content).bind fun found => hrest.andThen fun more => serves_pure _

theorem serves_responsesOf (hname : Naming.Plain operationName) (operation : Node) :
    Serves ((((operation.get? "responses").bind Node.entries?).getD []).flatMap (answerNeeds operationName))
      (responsesOf operation operationName) := by
  unfold responsesOf
  cases (operation.get? "responses").bind Node.entries? with
  | none => exact Serves.after (asks_warn _ []) fun _ => serves_pure _
  | some responses => exact (serves_responseTypes hname _ responses).andThen fun found => serves_pure _

/-- **An operation asks for what its needs ask for**, in their order. -/
theorem serves_generate (spec : Spec) : Serves spec.needs (Operation.generate spec) := by
  have hname := spec.plain_name
  unfold Operation.generate
  dsimp only
  cases hd : spec.parameters with
  | error e =>
    intro s _ _ _ c h
    cases h
  | ok declared =>
    have hneeds : spec.needs = declared.map (parameterNeed spec.name) ++
        ((mediaSchema? ((spec.operation.get? "requestBody").getD .null) "application/json").toList.map fun node =>
          (Schema.read? node, requestType spec.name)) ++
        (((spec.operation.get? "responses").bind Node.entries?).getD []).flatMap (answerNeeds spec.name) := by
      unfold Spec.needs
      rw [hd]
      rfl
    rw [hneeds, List.append_assoc]
    refine (serves_argumentsOf hname [responseName] declared).bind fun parameters =>
      (serves_bodyArgument? hname spec.operation _).bind fun body =>
        (serves_responsesOf hname spec.operation).andThen fun responses => ?_
    split
    · rename_i e he
      obtain ⟨hole, rfl⟩ := Linking.pathExpression_error he
      exact asks_throw (fun c h => by cases h) []
    · exact Serves.after (asks_addMethod _ []) fun _ => serves_pure _

end Operations

end Making
end TypedClient
