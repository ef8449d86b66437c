import TypedClient.Proofs.Linking.Handed
import TypedClient.Operation.Generate
/-!
# Paths — what a module does is a row of acts

Generating types and methods does nothing to a run but acts, one after another; and the names in what comes out were
handed out on the way (`Follows`).  A computation that fails has done acts as well, and what it leaves is where they
led, or else a definition that met a conflict.  The acts of a compound computation are those of its parts in a row
(`Follows.bind`), so that what is shown of single steps carries over to schemas by recursion on them.
-/
namespace TypedClient
namespace Linking

open Codegen (Session Gen)
open Emit (TypeExpr TypedefBody Field Argument)
open Scope (Definition)

variable {w v : World} {α β : Type} {known : List String} {names : α → List String} {names' : β → List String}

theorem Acts.numbered (hw : w.Numbered) (h : Acts w v) : v.Numbered := by
  induction h with
  | refl => exact hw
  | tail _ hact ih => exact (hact.kept ih).numbered ih

/-- **What a computation of a module comes to**: a row of acts to where it ends, with the names in its value handed out. -/
def Ends (w : World) (names : α → List String) : EStateM.Result GenerateError Session α → Prop
  | .ok a s => ∃ v, Acts w v ∧ v.session = s ∧ v.waiting = w.waiting ∧ names a ⊆ v.handed
  | .error e s => (∀ x, e ≠ .print x) ∧ ∃ v, Acts w v ∧ (v.session = s ∨ Breaks v s)

/-- **A computation that does nothing but acts**, once the known names were handed out. -/
def Follows (known : List String) (m : Gen α) (names : α → List String) : Prop :=
  ∀ w : World, w.Numbered → known ⊆ w.handed → Ends w names (m w.session)

/-! ## Compound computations -/

theorem Ends.trans (h : Acts w v) (hv : v.waiting = w.waiting) {r : EStateM.Result GenerateError Session α}
    (hr : Ends v names r) : Ends w names r := by
  cases r with
  | ok a s =>
    obtain ⟨u, hacts, hs, hwaiting, hnames⟩ := hr
    exact ⟨u, h.trans hacts, hs, hwaiting.trans hv, hnames⟩
  | error e s =>
    obtain ⟨he, u, hacts, hs⟩ := hr
    exact ⟨he, u, h.trans hacts, hs⟩

theorem Ends.names_mono {fewer : α → List String} {r : EStateM.Result GenerateError Session α} (h : Ends w names r)
    (hsub : ∀ a, fewer a ⊆ names a) : Ends w fewer r := by
  cases r with
  | ok a s =>
    obtain ⟨v, hacts, hs, hwaiting, hnames⟩ := h
    exact ⟨v, hacts, hs, hwaiting, List.Subset.trans (hsub a) hnames⟩
  | error e s => exact h

theorem Follows.weaken {m : Gen α} (h : Follows [] m names) : Follows known m names :=
  fun w hw _ => h w hw (List.nil_subset _)

theorem Follows.pure {a : α} (h : names a ⊆ known) : Follows known (Pure.pure a) names :=
  fun w _ hknown => ⟨w, .refl, rfl, rfl, List.Subset.trans h hknown⟩

theorem Follows.throw {e : GenerateError} (h : ∀ x, e ≠ .print x) : Follows known (throw e : Gen α) names :=
  fun w _ _ => ⟨h, w, .refl, .inl rfl⟩

/-- **The acts of two computations in a row.** -/
theorem Follows.bind {m : Gen α} {k : α → Gen β} (hm : Follows known m names)
    (hk : ∀ a, Follows (names a ++ known) (k a) names') : Follows known (m >>= k) names' := by
  intro w hw hknown
  have h := hm w hw hknown
  change Ends w names' (EStateM.bind m k w.session)
  unfold EStateM.bind
  cases hr : m w.session with
  | ok a s =>
    rw [hr] at h
    obtain ⟨v, hacts, rfl, hwaiting, hnames⟩ := h
    have hknown' := List.append_subset.2 ⟨hnames, List.Subset.trans hknown hacts.handed⟩
    exact (hk a v (hacts.numbered hw) hknown').trans hacts hwaiting
  | error e s =>
    rw [hr] at h
    exact h

theorem Follows.mapM {γ : Type} {f : γ → Gen α} (h : ∀ x, Follows [] (f x) names) :
    ∀ {known : List String} (xs : List γ), Follows known (xs.mapM f) fun as => as.flatMap names
  | known, [] => by
    rw [List.mapM_nil]
    exact .pure (List.nil_subset _)
  | known, x :: xs => by
    rw [List.mapM_cons]
    refine (h x).weaken.bind fun a => (Follows.mapM h xs).bind fun as => .pure ?_
    rw [List.flatMap_cons]
    exact List.append_subset.2 ⟨List.subset_append_of_subset_right _ (List.subset_append_left _ _),
      List.subset_append_left _ _⟩

/-! ## Single steps -/

theorem follows_warn {message : String} (h : isReferral message = false) :
    Follows known (Codegen.warn message) fun _ => [] :=
  fun _ _ _ => ⟨_, .single (.warn message h rfl), rfl, rfl, List.nil_subset _⟩

theorem follows_warnIf {reason : Bool} {message : String} (h : isReferral message = false) :
    Follows known (Codegen.warnIf reason message) fun _ => [] := by
  unfold Codegen.warnIf
  cases reason with
  | true => exact follows_warn h
  | false => exact .pure (List.nil_subset _)

/-- A definition that is found can be used at any moment. -/
theorem World.Numbered.exists_use (hw : w.Numbered) {place : String} {d : Definition}
    (hp : w.session.definitionAt? place = some d) : ∃ name s, Codegen.nameOf d w.session = .ok name s :=
  Codegen.exists_nameOf hw.scopes hw.isModule hp

theorem orDefined_made {place : Option String} {otherwise : Gen TypeExpr} {s : Session} {d : Definition}
    (h : place.bind s.definitionAt? = some d) :
    Codegen.orDefined place otherwise s = (do return .named (← Codegen.nameOf d) : Gen TypeExpr) s := by
  unfold Codegen.orDefined
  exact bind_of_eq_ok (Codegen.definition?_eq_ok h)

theorem orDefined_unmade {place : Option String} {otherwise : Gen TypeExpr} {s : Session}
    (h : place.bind s.definitionAt? = none) : Codegen.orDefined place otherwise s = otherwise s := by
  unfold Codegen.orDefined
  exact bind_of_eq_ok (Codegen.definition?_eq_ok h)

/-- The place behind a definition that was found. -/
theorem exists_place {place : Option String} {s : Session} {d : Definition}
    (h : place.bind s.definitionAt? = some d) : ∃ p, place = some p ∧ s.definitionAt? p = some d := by
  cases place with
  | none => cases h
  | some p => exact ⟨p, rfl, h⟩

theorem follows_orDefined {place : Option String} {otherwise : Gen TypeExpr}
    (h : Follows known otherwise TypeExpr.names) : Follows known (Codegen.orDefined place otherwise) TypeExpr.names := by
  intro w hw hknown
  cases hp : place.bind w.session.definitionAt? with
  | none =>
    rw [orDefined_unmade hp]
    exact h w hw hknown
  | some d =>
    obtain ⟨p, -, hfound⟩ := exists_place hp
    obtain ⟨name, s, huse⟩ := hw.exists_use hfound
    have hok : Codegen.orDefined place otherwise w.session = .ok (.named name) s := by
      rw [orDefined_made hp]
      exact bind_eq_ok.2 ⟨name, s, huse, rfl⟩
    rw [hok]
    refine ⟨_, .single (.use p hfound huse), rfl, rfl, fun n hn => ?_⟩
    rw [TypeExpr.names, List.mem_singleton] at hn
    exact hn ▸ List.mem_cons_self

/-- The names in the body of a typedef, if there is one. -/
def bodyNames (body : Option TypedefBody) : List String :=
  (body.map TypedefBody.names).getD []

/-- Whether a computation leaves everything as it is when it comes to no body. -/
def Quiet (body : Gen (Option TypedefBody)) : Prop :=
  ∀ s s', body s = .ok none s' → s' = s

/-- A definition, and what comes after it; if it meets a conflict, that is the end. -/
theorem Ends.define {name : String} {place : Option String} {isPublic : Bool} {k : Definition → Gen α}
    (hname : Dotless name) (hp : w.Unmade place)
    (h : ∀ d s, Codegen.define name place isPublic w.session = .ok d s → Ends w names (k d s)) :
    Ends w names ((Codegen.define name place isPublic >>= k) w.session) := by
  change Ends w names (EStateM.bind _ _ w.session)
  unfold EStateM.bind
  cases hd : Codegen.define name place isPublic w.session with
  | error e s =>
    obtain ⟨t, c, -, -, rfl⟩ := Codegen.define_eq_error hd
    exact ⟨nofun, w, .refl, .inr ⟨name, place, isPublic, hname, hp, hd⟩⟩
  | ok d s => exact h d s hd

section EnterTypedef

variable {name : String} {place description : Option String} {body : Gen (Option TypedefBody)}

/-- **An alias is entered, the definition used, and the typedef finished.** -/
theorem ends_alias {d : Definition} (hw : w.Numbered) (hname : Dotless name)
    (hp : place.bind w.session.definitionAt? = some d) :
    Ends w (fun n => [n]) (Codegen.enterTypedef name place description body w.session) := by
  obtain ⟨p, rfl, hfound⟩ := exists_place hp
  rw [Codegen.enterTypedef_made hp]
  refine Ends.define hname rfl fun d' s hd => ?_
  have henter := Act.enter name none hname rfl hd
  have hk := henter.kept hw
  obtain ⟨added, hg⟩ := hk.grown
  have hfound' := Codegen.definitionAt?_mono hw.scopes hw.isModule hk.sound hg hk.scope hfound
  obtain ⟨target, s', huse⟩ := (hk.numbered hw).exists_use hfound'
  have hnames : TypedefBody.names (.synonym (.named target)) ⊆ target :: name :: w.handed := by
    intro n hn
    simp only [TypedefBody.names, TypedefBody.types, List.flatMap_cons, List.flatMap_nil, TypeExpr.names,
      List.append_nil, List.mem_singleton] at hn
    exact hn ▸ List.mem_cons_self
  have hfinish := Act.finish
    (w := { w with session := s', waiting := name :: w.waiting, handed := target :: name :: w.handed })
    ⟨name, .synonym (.named target), description⟩ List.mem_cons_self hnames rfl
  change Codegen.nameOf d s = .ok target s' at huse
  simp only [bind, EStateM.bind, huse]
  refine ⟨_, ((Relation.ReflTransGen.single henter).tail (.use p hfound' huse)).tail hfinish, rfl,
    List.erase_cons_head _ _, ?_⟩
  exact List.cons_subset.2 ⟨List.mem_cons_of_mem _ List.mem_cons_self, List.nil_subset _⟩

/-- **A name is entered, its typedef made, and that finished**; or the name gets no typedef. -/
theorem ends_entry (hw : w.Numbered) (hname : Dotless name) (hbody : Follows [] body bodyNames) (hquiet : Quiet body)
    (hp : w.Unmade place) {given : String → List String}
    (hgiven : given name ⊆ [name]) (hnone : given name ≠ [] → ∀ s s', body s ≠ .ok none s') :
    Ends w given (Codegen.enterTypedef name place description body w.session) := by
  rw [Codegen.enterTypedef_unmade hp]
  refine Ends.define hname hp fun d s hd => ?_
  have henter := Act.enter name place hname hp hd
  have hb := hbody _ ((henter.kept hw).numbered hw) (List.nil_subset _)
  change Ends _ bodyNames (body s) at hb
  change Ends w _ (EStateM.bind _ _ s)
  unfold EStateM.bind
  cases hr : body s with
  | error e s' =>
    rw [hr] at hb
    obtain ⟨he, v, hacts, hs⟩ := hb
    exact ⟨he, v, hacts.head henter, hs⟩
  | ok made s' =>
    rw [hr] at hb
    cases made with
    | some b =>
      obtain ⟨v, hacts, rfl, hwaiting, hnames⟩ := hb
      have hfinish := Act.finish ⟨name, b, description⟩ (hwaiting ▸ List.mem_cons_self) hnames rfl
      refine ⟨_, (hacts.head henter).tail hfinish, rfl, ?_, ?_⟩
      · change v.waiting.erase name = w.waiting
        rw [hwaiting]
        exact List.erase_cons_head _ _
      · exact List.Subset.trans hgiven (List.cons_subset.2 ⟨hacts.handed List.mem_cons_self, List.nil_subset _⟩)
    | none =>
      cases hquiet s s' hr
      have hleave := Codegen.leave_eq name place s
      have hact : Codegen.enterTypedef name place description (Pure.pure none) w.session = .ok name (s.leave name place) := by
        rw [Codegen.enterTypedef_unmade hp]
        exact bind_eq_ok.2 ⟨d, s, hd, by rw [pure_bind]; exact hleave⟩
      have hgiven' : given name = [] := by
        by_contra hne
        exact hnone hne s s hr
      have hend : Ends w given (.ok name (s.leave name place)) :=
        ⟨_, .single (.leave name place description hname hp hact), rfl, rfl, hgiven' ▸ List.nil_subset _⟩
      rw [← hleave] at hend
      exact hend

/-- **Entering a name is a row of acts.**  The name is handed out where it certainly gets a typedef. -/
theorem follows_enterTypedef (hname : Dotless name) (hbody : Follows [] body bodyNames) (hquiet : Quiet body)
    {given : String → List String} (hgiven : ∀ n, given n ⊆ [n]) (hnone : given name ≠ [] → ∀ s s', body s ≠ .ok none s') :
    Follows known (Codegen.enterTypedef name place description body) given := by
  intro w hw _
  cases hp : place.bind w.session.definitionAt? with
  | some d => exact (ends_alias hw hname hp).names_mono hgiven
  | none => exact ends_entry hw hname hbody hquiet hp (hgiven name) hnone

end EnterTypedef

/-! ## Types -/

theorem Dotless.filter {p : String → Bool} {name : Option String} (h : ∀ n, name = some n → Dotless n) :
    ∀ n, name.filter p = some n → Dotless n :=
  fun n hn => h n (Option.filter_eq_some_iff.1 hn).1

theorem namesAll_eq : ∀ types : List TypeExpr, TypeExpr.namesAll types = types.flatMap TypeExpr.names
  | [] => rfl
  | type :: rest => by
    rw [TypeExpr.namesAll, namesAll_eq rest]
    rfl

theorem names_primitives (types : List String) : (TypeExpr.union (types.map Codegen.primitiveType)).names = [] := by
  rw [TypeExpr.names, namesAll_eq, List.flatMap_map, List.flatMap_eq_nil_iff]
  intro type _
  rfl

/-- The names in the types of fields. -/
def fieldNames (fields : List Field) : List String := fields.flatMap (·.type.names)

theorem bodyNames_object (fields : List Field) : bodyNames (some (.object fields)) = fieldNames fields := by
  unfold bodyNames fieldNames
  simp [TypedefBody.names, TypedefBody.types, List.flatMap_map]

theorem follows_literals (values : List Node) : Follows known (Codegen.literals values) TypeExpr.namesAll := by
  have hnames : TypeExpr.namesAll = fun types => types.flatMap TypeExpr.names := funext namesAll_eq
  rw [hnames]
  refine Follows.mapM (fun value => ?_) values
  cases Emit.literal value with
  | ok text => exact .pure (List.nil_subset _)
  | error e => exact .throw nofun

theorem follows_texts (values : List Node) : Follows known (Codegen.texts values) fun _ => [] := by
  have htexts : Follows known (Codegen.texts values) fun texts => texts.flatMap fun _ => [] := by
    refine Follows.mapM (fun value => ?_) values
    cases Emit.textOf value with
    | ok text => exact .pure (List.nil_subset _)
    | error e => exact .throw nofun
  exact fun w hw hknown => (htexts w hw hknown).names_mono fun _ => List.nil_subset _

theorem follows_enumerationType (values : List Node) : Follows known (Codegen.enumerationType values) TypeExpr.names := by
  unfold Codegen.enumerationType
  split
  · exact .pure (List.nil_subset _)
  · exact (follows_literals values).bind fun _ => .pure (List.subset_append_left _ _)

/-- A body that is made is no missing body. -/
theorem quiet_some {m : Gen α} {f : α → TypedefBody} : Quiet (do return some (f (← m))) := by
  intro s s' h
  obtain ⟨a, u, -, h⟩ := bind_eq_ok.1 h
  cases (pure_eq_ok.1 h).1

theorem ne_none_of_some {m : Gen α} {f : α → TypedefBody} (s s' : Session) :
    (do return some (f (← m)) : Gen (Option TypedefBody)) s ≠ .ok none s' := by
  intro h
  obtain ⟨a, u, -, h⟩ := bind_eq_ok.1 h
  cases (pure_eq_ok.1 h).1

mutual
/-- **The type of a schema is made by a row of acts**, and its names are handed out. -/
theorem follows_typeOf : ∀ (schema : Schema) (name : Option String), (∀ n, name = some n → Dotless n) →
    ∀ {known : List String}, Follows known (Codegen.typeOf schema name) TypeExpr.names
  | .reference pointer, name, hname, known => by
    unfold Codegen.typeOf
    refine follows_orDefined ((follows_warn ?_).bind fun _ => .pure (List.nil_subset _))
    rw [String.append_assoc, isReferral_append _ (by decide)]
    decide
  | .merge info members, name, hname, known => by
    unfold Codegen.typeOf
    refine follows_orDefined ?_
    split
    · exact .pure (List.nil_subset _)
    · exact (follows_typesOf members).bind fun _ => .pure (List.subset_append_left _ _)
  | .array info items, name, hname, known => by
    unfold Codegen.typeOf
    refine follows_orDefined ((follows_itemType items _ ?_).bind fun _ => .pure (List.subset_append_left _ _))
    intro n hn
    obtain ⟨short, hshort, rfl⟩ := Option.map_eq_some_iff.1 hn
    exact (hname short hshort).append (by decide)
  | .object info properties required, name, hname, known => by
    unfold Codegen.typeOf
    refine follows_orDefined ?_
    cases name with
    | none => exact .pure (List.nil_subset _)
    | some name =>
      have hfields : Follows [] (do return some (.object (← Codegen.fieldsOf required properties))) bodyNames :=
        (follows_fieldsOf required properties).bind fun fields => .pure (by
          rw [bodyNames_object]
          exact List.subset_append_left _ _)
      have hentry : Follows known (Codegen.enterTypedef name info.path info.description _) fun n => [n] :=
        follows_enterTypedef (hname name rfl) hfields quiet_some (fun _ => List.Subset.refl _) fun _ => ne_none_of_some
      exact hentry.bind fun n => .pure (List.subset_append_left _ _)
  | .enumeration info type values, name, hname, known => by
    unfold Codegen.typeOf
    exact follows_orDefined (follows_enumerationType values)
  | .primitive info types, name, hname, known => by
    unfold Codegen.typeOf
    refine follows_orDefined (.pure ?_)
    rw [names_primitives]
    exact List.nil_subset _
  | .untyped info, name, hname, known => by
    unfold Codegen.typeOf
    exact follows_orDefined (.pure (List.nil_subset _))

theorem follows_itemType : ∀ (items : Option Schema) (name : Option String), (∀ n, name = some n → Dotless n) →
    ∀ {known : List String}, Follows known (Codegen.itemType items name) TypeExpr.names
  | some schema, name, hname, known => by
    unfold Codegen.itemType
    exact follows_typeOf schema name hname
  | none, name, hname, known => by
    unfold Codegen.itemType
    exact .pure (List.nil_subset _)

theorem follows_typesOf : ∀ (schemas : List Schema) {known : List String},
    Follows known (Codegen.typesOf schemas) TypeExpr.namesAll
  | [], known => by
    unfold Codegen.typesOf
    exact .pure (List.nil_subset _)
  | schema :: rest, known => by
    unfold Codegen.typesOf
    refine (follows_typeOf schema none nofun).bind fun type => (follows_typesOf rest).bind fun types => .pure ?_
    rw [TypeExpr.namesAll]
    exact List.append_subset.2 ⟨List.subset_append_of_subset_right _ (List.subset_append_left _ _),
      List.subset_append_left _ _⟩

theorem follows_fieldsOf : ∀ (required : List String) (properties : List (String × Schema)) {known : List String},
    Follows known (Codegen.fieldsOf required properties) fieldNames
  | required, [], known => by
    unfold Codegen.fieldsOf
    exact .pure (List.nil_subset _)
  | required, (name, schema) :: rest, known => by
    unfold Codegen.fieldsOf
    refine (follows_typeOf schema none nofun).bind fun type => (follows_fieldsOf required rest).bind fun fields => .pure ?_
    rw [fieldNames, List.flatMap_cons]
    exact List.append_subset.2 ⟨List.subset_append_of_subset_right _ (List.subset_append_left _ _),
      List.subset_append_left _ _⟩
end

theorem follows_memberTypes {name : String} (hname : Dotless name) : ∀ (index : Nat) (schemas : List Schema)
    {known : List String}, Follows known (Codegen.memberTypes name index schemas) TypeExpr.namesAll
  | index, [], known => .pure (List.nil_subset _)
  | index, schema :: rest, known => by
    have hmember : ∀ n, some (name ++ "UnionMember" ++ toString index) = some n → Dotless n := by
      rintro n ⟨⟩
      exact (hname.append (by decide)).append (dotless_toString index)
    unfold Codegen.memberTypes
    refine (follows_typeOf schema _ hmember).bind fun type =>
      (follows_memberTypes hname (index + 1) rest).bind fun types => .pure ?_
    rw [TypeExpr.namesAll]
    exact List.append_subset.2 ⟨List.subset_append_of_subset_right _ (List.subset_append_left _ _),
      List.subset_append_left _ _⟩

theorem follows_resolveType (schema : Option Schema) {name : Option String} (hname : ∀ n, name = some n → Dotless n) :
    Follows known (Codegen.resolveType schema name) TypeExpr.names :=
  follows_itemType schema _ (Dotless.filter hname)

/-! ## Bodies of typedefs -/

theorem scalarBody_eq (type : Gen TypeExpr) (s : Session) : Codegen.scalarBody type s =
    if s.draft.aliasScalars then (do return some (.synonym (← type)) : Gen (Option TypedefBody)) s else .ok none s := by
  unfold Codegen.scalarBody
  change (if s.draft.aliasScalars = true then _ else _ : Gen (Option TypedefBody)) s = _
  split
  · rfl
  · rfl

theorem follows_scalarBody {type : Gen TypeExpr} (h : Follows [] type TypeExpr.names) :
    Follows [] (Codegen.scalarBody type) bodyNames := by
  have hbody : Follows [] (do return some (.synonym (← type)) : Gen (Option TypedefBody)) bodyNames :=
    h.bind fun _ => .pure (List.append_subset.2 ⟨List.subset_append_left _ _, List.nil_subset _⟩)
  intro w hw hknown
  rw [scalarBody_eq]
  split
  · exact hbody w hw hknown
  · exact ⟨w, .refl, rfl, rfl, List.nil_subset _⟩

theorem quiet_scalarBody (type : Gen TypeExpr) : Quiet (Codegen.scalarBody type) := by
  intro s s' h
  rw [scalarBody_eq] at h
  split at h
  · exact quiet_some s s' h
  · cases h
    rfl

theorem follows_bodyOf {name : String} (hname : Dotless name) (schema : Schema) :
    Follows [] (Codegen.bodyOf name schema) bodyNames := by
  cases schema with
  | reference pointer => exact .pure (List.nil_subset _)
  | object info properties required =>
    refine (follows_fieldsOf required properties).bind fun fields => .pure ?_
    rw [bodyNames_object]
    exact List.subset_append_left _ _
  | array info items =>
    exact (follows_itemType items none nofun).bind fun item =>
      .pure (List.append_subset.2 ⟨List.subset_append_left _ _, List.nil_subset _⟩)
  | merge info members =>
    refine (follows_memberTypes hname 0 members).bind fun types => .pure ?_
    rw [namesAll_eq]
    exact List.subset_append_left _ _
  | enumeration info type values =>
    change Follows [] (if type = "string" then _ else _) bodyNames
    split
    · exact (follows_texts values).bind fun _ => .pure (List.nil_subset _)
    · exact follows_scalarBody (follows_enumerationType values)
  | primitive info types =>
    refine follows_scalarBody (.pure ?_)
    rw [names_primitives]
    exact List.nil_subset _
  | untyped info => exact follows_scalarBody (.pure (List.nil_subset _))

/-- No body is missing after something was done for it. -/
theorem quiet_bodyOf (name : String) (schema : Schema) : Quiet (Codegen.bodyOf name schema) := by
  cases schema with
  | reference pointer =>
    intro s s' h
    cases h
    rfl
  | object info properties required => exact quiet_some
  | array info items => exact quiet_some
  | merge info members => exact quiet_some
  | enumeration info type values =>
    change Quiet (if type = "string" then _ else _)
    split
    · exact quiet_some
    · exact quiet_scalarBody _
  | primitive info types => exact quiet_scalarBody _
  | untyped info => exact quiet_scalarBody _

/-- **The typedef of a named schema is made by a row of acts.** -/
theorem follows_generateTypedef {name : String} (hname : Dotless name) (schema : Schema) :
    Follows known (Codegen.generateTypedef name schema) fun _ => [] :=
  follows_enterTypedef hname (follows_bodyOf hname schema) (quiet_bodyOf name schema) (fun _ => List.nil_subset _)
    fun hne => absurd rfl hne

end Linking
end TypedClient
