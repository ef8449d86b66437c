import TypedClient.Proofs.Linking.Run
/-!
# Single — one schema, one definition

At every moment of a run no two definitions are made from the schema at one place, and no two typedefs belong to such
definitions; and once a place has a definition, every type of the schemas there is a name that leads to it, the same
name within one module (`one_definition`).  It rests on the lookup that comes before every definition: what it finds is
used, and what it does not find is nowhere (`Codegen.vacant_of_definitionAt?`).
-/
namespace TypedClient

open Codegen (Session Draft)
open Scope (Definition Symbol Table Tree)

/-- **Whether there is one definition for each place**: the root holds copies of the modules' definitions, each of which
counts once with its copy, and no two entries of modules are definitions for one place. -/
structure Scope.Tree.Single (t : Tree) : Prop where
  copies : ∀ symbol ∈ t.table 0, ∃ id ≠ 0, ∃ d, .defined d ∈ t.table id ∧ symbol = .defined (d.within (t.get id).name)
  definitions : ∀ i ≠ 0, ∀ j ≠ 0, ∀ (a b : Nat) d e place, (t.table i)[a]? = some (.defined d) →
    (t.table j)[b]? = some (.defined e) → d.specPath = some place → e.specPath = some place → i = j ∧ a = b

theorem getElem?_inj_of_map {α β : Type} {f : α → β} {xs : List α} (h : (xs.map f).Nodup) {a b : Nat} {x y : α}
    (ha : xs[a]? = some x) (hb : xs[b]? = some y) (hxy : f x = f y) : a = b := by
  have hlt : a < (xs.map f).length := by
    rw [List.length_map]
    exact (List.getElem?_eq_some_iff.1 ha).1
  refine (List.getElem?_inj hlt h).1 ?_
  rw [List.getElem?_map, List.getElem?_map, ha, hb, Option.map_some, Option.map_some, hxy]

theorem Scope.Tree.Sound.single {t : Tree} (h : t.Sound) : t.Single where
  copies := h.copies
  definitions i hi j hj a b d e place ha hb hd he := by
    obtain ⟨rfl, rfl⟩ := h.placed i hi j hj d e place (List.mem_of_getElem? ha) (List.mem_of_getElem? hb) hd he
    exact ⟨rfl, getElem?_inj_of_map (h.nodup i) ha hb rfl⟩

namespace Linking

variable {w v : World} {log : List Referral} {settings : Settings}

/-- A definition that met a conflict is the only one for its place, too. -/
theorem Breaks.single (hn : w.Numbered) {s : Session} (h : Breaks w s) : s.shared.scopes.Single := by
  obtain ⟨name, place, isPublic, hname, hp, h⟩ := h
  obtain ⟨t, c, hd, rfl, rfl⟩ := Codegen.define_eq_error h
  have hvacant := Codegen.vacant_of_definitionAt? hn.scopes hn.isModule hp
  rcases hn.scopes.define_error hn.isModule hd with rfl | ⟨hfree, rfl⟩
  · exact hn.scopes.single
  · have hg := Tree.grown_enter hn.isModule.2 (.defined (w.scopes.defining w.scope name place isPublic))
    change Tree.Single (w.scopes.enter w.scope (.defined (w.scopes.defining w.scope name place isPublic)))
    have hcases : ∀ j ≠ 0, ∀ symbol ∈
        (w.scopes.enter w.scope (.defined (w.scopes.defining w.scope name place isPublic))).table j,
        symbol ∈ w.scopes.table j ∨ (j = w.scope ∧ symbol = .defined (w.scopes.defining w.scope name place isPublic)) := by
      intro j _ symbol hs
      rw [hg.table, List.mem_append] at hs
      by_cases hj : j = w.scope
      · rw [if_pos hj, List.mem_singleton] at hs
        exact hs.imp_right fun hs => ⟨hj, hs⟩
      · rw [if_neg hj] at hs
        exact .inl (hs.resolve_right List.not_mem_nil)
    have hplaced := hn.scopes.placed_of_vacant (d := w.scopes.defining w.scope name place isPublic) hvacant hcases
    constructor
    case copies =>
      intro symbol hs
      rw [hg.table, if_neg (Ne.symm hn.isModule.1), List.append_nil] at hs
      obtain ⟨id, h0, d, hd, rfl⟩ := hn.scopes.copies symbol hs
      exact ⟨id, h0, d, hg.mem hd, by rw [hg.name]⟩
    case definitions =>
      intro i hi j hj a b d e p ha hb hdp hep
      obtain ⟨rfl, rfl⟩ := hplaced i hi j hj d e p (List.mem_of_getElem? ha) (List.mem_of_getElem? hb) hdp hep
      refine ⟨rfl, getElem?_inj_of_map (f := Symbol.localName) ?_ ha hb rfl⟩
      rw [hg.table]
      by_cases hid : i = w.scope
      · rw [if_pos hid, hid]
        exact Table.nodup_concat (hn.scopes.nodup _) hfree
      · rw [if_neg hid, List.append_nil]
        exact hn.scopes.nodup i

/-- A typedef of a module that belongs to the definition for a place. -/
def World.MadeFrom (w : World) (draft : Draft) (t : Emit.Typedef) (place : String) : Prop :=
  ∃ d, .defined d ∈ w.scopes.table draft.scope ∧ d.localName = t.name ∧ d.specPath = some place

/-- **Whether there is one typedef for each place**, over all modules; an alias belongs to no place. -/
def World.SingleTypedefs (w : World) : Prop :=
  ∀ (k l a b : Nat) draft draft' t t' place, w.drafts[k]? = some draft → w.drafts[l]? = some draft' →
    draft.typedefs[a]? = some t → draft'.typedefs[b]? = some t' → w.MadeFrom draft t place → w.MadeFrom draft' t' place →
    k = l ∧ a = b

theorem World.Sound.singleTypedefs (h : w.Sound log) : w.SingleTypedefs := by
  rintro k l a b draft draft' t t' place hk hl ha hb ⟨d, hd, hname, hp⟩ ⟨e, he, hname', hp'⟩
  have h0 := h.numbered.scope_ne_zero (List.mem_of_getElem? hk)
  have h0' := h.numbered.scope_ne_zero (List.mem_of_getElem? hl)
  obtain ⟨hscope, rfl⟩ := h.numbered.scopes.placed _ h0 _ h0' d e place hd he hp hp'
  have hkl : k = l := by
    rw [(h.numbered.numbered k draft hk).1, (h.numbered.numbered l draft' hl).1] at hscope
    exact Nat.succ.inj hscope
  subst hkl
  cases hk.symm.trans hl
  exact ⟨rfl, getElem?_inj_of_map (h.named.typed draft (List.mem_of_getElem? hk)).1 ha hb (hname.symm.trans hname')⟩

/-! ## Types of schemas at a place with a definition -/

/-- Whether a place has a definition. -/
def World.Made (w : World) (place : String) : Prop :=
  ∃ home ≠ 0, ∃ d, .defined d ∈ w.scopes.table home ∧ d.specPath = some place

/-- The moment after a name was handed out. -/
def World.used (w : World) (name : String) (s : Session) : World :=
  { w with session := s, handed := name :: w.handed }

/-- Whether a name of the module leads to a definition: to the entry itself in its own module, to the copy in the root
elsewhere. -/
def Leads (s : Session) (name : String) (home : Scope.Id) (d : Definition) : Prop :=
  s.shared.scopes.lookUp? s.draft.scope name =
    some (if home = s.draft.scope then d else d.within (s.shared.scopes.get home).name)

theorem typeOf_eq (schema : Schema) (name : Option String) :
    ∃ otherwise, Codegen.typeOf schema name = Codegen.orDefined schema.path? otherwise := by
  cases schema <;> exact ⟨_, by unfold Codegen.typeOf; rfl⟩

/-- A schema at a place with a definition is not spelled out: the definition is used. -/
theorem typeOf_use (hn : w.Numbered) {place : String} (hmade : w.Made place) {schema : Schema}
    (hschema : schema.path? = some place) (wanted : Option String) :
    ∃ c name s, w.session.definitionAt? place = some c ∧ Codegen.nameOf c w.session = .ok name s ∧
      Codegen.typeOf schema wanted w.session = .ok (.named name) s := by
  obtain ⟨home, h0, e, he, hp⟩ := hmade
  obtain ⟨c, hc⟩ := Codegen.exists_definitionAt? hn.scopes hn.isModule h0 he hp
  obtain ⟨name, s, huse⟩ := hn.exists_use hc
  obtain ⟨otherwise, heq⟩ := typeOf_eq schema wanted
  refine ⟨c, name, s, hc, huse, ?_⟩
  rw [heq, orDefined_made (d := c) (by rw [hschema]; exact hc)]
  exact bind_eq_ok.2 ⟨name, s, huse, rfl⟩

/-- The name under which a definition is used stands for it, where it was made. -/
theorem World.Numbered.used (hn : w.Numbered) {place name : String} {c : Definition} {s : Session}
    (hc : w.session.definitionAt? place = some c) (huse : Codegen.nameOf c w.session = .ok name s) :
    ∃ home d, home ≠ 0 ∧ .defined d ∈ w.scopes.table home ∧ d.specPath = some place ∧
      (w.used name s).scopes.Designates (w.used name s).scope name home d := by
  have hk := (Act.use place hc huse).kept hn
  obtain ⟨t, home, d, hf, -, hdesignates, hreport⟩ := hn.use hc huse
  obtain ⟨hscopes, -, -⟩ := reportBodiless_kept hreport
  obtain ⟨h0, hd⟩ := hf.defined hn.isModule.1
  refine ⟨home, d, h0, hd, hf.specPath.2, ?_⟩
  have hscope : (w.used name s).scope = w.scope := hk.scope
  rw [hscope, World.scopes, World.used, hscopes]
  exact hdesignates

/-- **The type of a schema at a place with a definition is a name for that.** -/
theorem typeOf_made (hn : w.Numbered) {place : String} (hmade : w.Made place) {schema : Schema}
    (hschema : schema.path? = some place) (wanted : Option String) :
    ∃ name s home d, Codegen.typeOf schema wanted w.session = .ok (.named name) s ∧ Act w (w.used name s) ∧ home ≠ 0 ∧
      .defined d ∈ w.scopes.table home ∧ d.specPath = some place ∧
      (w.used name s).scopes.Designates (w.used name s).scope name home d := by
  obtain ⟨c, name, s, hc, huse, htype⟩ := typeOf_use hn hmade hschema wanted
  obtain ⟨home, d, hrest⟩ := hn.used hc huse
  exact ⟨name, s, home, d, htype, .use place hc huse, hrest⟩

theorem leads_of_designates (hn : w.Numbered) {name : String} {home : Scope.Id} {d : Definition}
    (h : w.scopes.Designates w.scope name home d) : Leads w.session name home d :=
  h.lookUp?_eq hn.scopes hn.isModule

theorem Reaches.designates (hw : w.Sound log) (h : Reaches w v) {id home : Scope.Id} {name : String} {d : Definition}
    (hd : w.scopes.Designates id name home d) : v.scopes.Designates id name home d := by
  induction h with
  | refl => exact hd
  | tail hreach hstep ih =>
    obtain ⟨log', -, hsound⟩ := Reaches.sound hw hreach
    cases hstep with
    | act hact =>
      obtain ⟨added, hg⟩ := (hact.kept hsound.numbered).grown
      exact ih.mono hg
    | next filename name apiName aliasScalars hwaiting => exact ih.addScope hsound.numbered.scopes name filename

/-- **Once a place has a definition, all types of the schemas there lead to it**, now and at every later moment. -/
theorem typeOf_single (hw : w.Sound log) {place : String} (hmade : w.Made place) {schema : Schema}
    (hschema : schema.path? = some place) (wanted : Option String) :
    ∃ name s home d, Codegen.typeOf schema wanted w.session = .ok (.named name) s ∧ Step w (w.used name s) ∧ home ≠ 0 ∧
      .defined d ∈ w.scopes.table home ∧ d.specPath = some place ∧ Leads s name home d ∧
      ∀ v, Reaches (w.used name s) v → ∀ schema' wanted', schema'.path? = some place →
        ∃ name' s', Codegen.typeOf schema' wanted' v.session = .ok (.named name') s' ∧ Leads s' name' home d ∧
          (v.scope = w.scope → name' = name) := by
  obtain ⟨name, s, home, d, htype, hact, h0, hd, hp, hdesignates⟩ := typeOf_made hw.numbered hmade hschema wanted
  obtain ⟨log', -, hused⟩ := hact.sound hw
  refine ⟨name, s, home, d, htype, .act hact, h0, hd, hp, leads_of_designates hused.numbered hdesignates, ?_⟩
  intro v hreach schema' wanted' hschema'
  obtain ⟨log'', -, hv⟩ := hreach.sound hused
  have hlater := hreach.designates hused hdesignates
  have hmade' : v.Made place := ⟨home, h0, d, hlater.defined, hp⟩
  obtain ⟨name', s', home', d', htype', hact', h0', hd', hp', hdesignates'⟩ :=
    typeOf_made hv.numbered hmade' hschema' wanted'
  obtain ⟨rfl, rfl⟩ := hv.numbered.scopes.placed home h0 home' h0' d d' place hlater.defined hd' hp hp'
  obtain ⟨_, -, hused'⟩ := hact'.sound hv
  refine ⟨name', s', htype', leads_of_designates hused'.numbered hdesignates', fun hscope => ?_⟩
  -- within one module the first name still stands for the definition
  have hk := hact'.kept hv.numbered
  obtain ⟨added, hg⟩ := hk.grown
  have hfirst := hlater.mono hg
  have hsame : (w.used name s).scope = (v.used name' s').scope := by
    rw [hk.scope, hscope]
    exact (hact.kept hw.numbered).scope
  rw [hsame] at hfirst
  exact (hdesignates'.unique hused'.numbered.scopes hused'.numbered.isModule.1 hfirst hp hp).2.2

/-- **One schema, one definition.**  A run ends at a moment, with the modules that were printed, or with a definition that
met a conflict there.  At every moment, and in what is left by such a conflict, there is one definition for each place,
and one typedef; and when a type of a schema is made at a place that has a definition, it is a name that leads to the
definition, as are all types made of schemas at that place later on, under the same name in the same module. -/
theorem one_definition {values : List (String × Node)} (hs : Settings.ofValues values = .ok settings) (document : Node) :
    (∃ w, Reaches (.start settings) w ∧
      match Generate.generateAll document settings Progress.start with
      | .ok _ p => w.drafts = drafted settings p.modules ∧ w.session.shared = p.shared
      | .error _ p => drafted settings p.modules <+: w.drafts ∧
        (w.session.shared = p.shared ∨ ∃ s, Breaks w s ∧ s.shared = p.shared)) ∧
    ∀ w, Reaches (.start settings) w →
      w.scopes.Single ∧ (∀ s, Breaks w s → s.shared.scopes.Single) ∧ w.SingleTypedefs ∧
      ∀ place schema wanted, w.Made place → schema.path? = some place →
        ∃ name s home d, Codegen.typeOf schema wanted w.session = .ok (.named name) s ∧ Step w (w.used name s) ∧
          home ≠ 0 ∧ .defined d ∈ w.scopes.table home ∧ d.specPath = some place ∧ Leads s name home d ∧
          ∀ v, Reaches (w.used name s) v → ∀ schema' wanted', schema'.path? = some place →
            ∃ name' s', Codegen.typeOf schema' wanted' v.session = .ok (.named name') s' ∧ Leads s' name' home d ∧
              (v.scope = w.scope → name' = name) := by
  constructor
  · have hrun := generateAll_runEnds (Settings.dotless_defaultApiName hs) document
    cases hr : Generate.generateAll document settings Progress.start with
    | ok _ p =>
      rw [hr] at hrun
      obtain ⟨w, log, h⟩ := hrun
      exact ⟨w, h.reached, h.drafts, h.shared⟩
    | error e p =>
      rw [hr] at hrun
      obtain ⟨-, w, hreached, hend⟩ := hrun
      exact ⟨w, hreached, hend⟩
  · intro w hreached
    obtain ⟨log, -, hw⟩ := hreached.sound (start_sound settings)
    exact ⟨hw.numbered.scopes.single, fun s hbreaks => hbreaks.single hw.numbered, hw.singleTypedefs,
      fun place schema wanted hmade hschema => typeOf_single hw hmade hschema wanted⟩

/-- Once a run has made the typedef of pets, what refers back to their schema is a name for that. -/
theorem pet_once : ∃ w, Reaches (.start petSettings) w ∧ w.Made "#/components/schemas/Pet" ∧ w.scopes.Single ∧
    w.SingleTypedefs ∧ ∃ name s home d,
      Codegen.typeOf (.reference "#/components/schemas/Pet") none w.session = .ok (.named name) s ∧
        d.specPath = some "#/components/schemas/Pet" ∧ Leads s name home d := by
  obtain ⟨hend, hmoments⟩ := one_definition ofValues_petValues petStore
  obtain ⟨u, p, hrun⟩ := exists_of_succeeds (r := Generate.generateAll petStore petSettings Progress.start) (by decide +kernel)
  have hpet : (match Generate.generateAll petStore petSettings Progress.start with
      | .ok _ p => (p.shared.scopes.table 2).any (Codegen.isMadeFrom "#/components/schemas/Pet")
      | .error .. => false) = true := by decide +kernel
  rw [hrun] at hend hpet
  obtain ⟨w, hreached, -, hshared⟩ := hend
  dsimp only at hshared hpet
  obtain ⟨symbol, hmem, hmadeFrom⟩ := List.any_eq_true.1 hpet
  obtain ⟨d, rfl, hp⟩ := Codegen.isMadeFrom_eq_true hmadeFrom
  rw [← hshared] at hmem
  have hmade : w.Made "#/components/schemas/Pet" := ⟨2, by decide, d, hmem, hp⟩
  obtain ⟨hsingle, -, htypedefs, htypes⟩ := hmoments w hreached
  obtain ⟨name, s, home, e, htype, -, -, -, he, hleads, -⟩ :=
    htypes _ (.reference "#/components/schemas/Pet") none hmade rfl
  exact ⟨w, hreached, hmade, hsingle, htypedefs, name, s, home, e, htype, he, hleads⟩

end Linking
end TypedClient
