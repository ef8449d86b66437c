import TypedClient.Proofs.Expansion.Stamps
import TypedClient.Proofs.Linking.Single
/-!
# Components — references to component schemas

The expansion stamps a reference with its pointer, and a component that is no reference with its own place.  The two agree,
so once such a component has been registered in its module every reference to it is a name for its definition, at every later
moment of the run (`component_named`).  A component that is itself a reference bears the place of what it leads to, and is
entered without a place of its own: what refers to it finds no definition, and is spelled out again (`gadget_inlined`).
-/
namespace TypedClient

open Codegen (Session Draft Gen)
open Scope (Definition Symbol Table Tree)

/-! ## The places of components -/

section Places

open Expansion (Expands referenceKey reference?)

variable {document expanded node : Node} {key : String} {p : Option String} {entries : List (String × Node)}

/-- The place of a component schema. -/
def componentPlace (key : String) : String := Pointer.child "#/components/schemas" key

theorem Node.get?_eq_some {x : Node} (h : node.get? key = some x) :
    ∃ p entries, node = .map p entries ∧ entries.lookup key = some x := by
  cases node with
  | map p entries => exact ⟨p, entries, rfl, h⟩
  | _ => cases h

/-- A document with component schemas has them two mappings down. -/
theorem componentSchemas_entries (h : Generate.componentSchemas document ≠ []) :
    ∃ p q r top middle, document = .map p top ∧ top.lookup "components" = some (.map q middle) ∧
      middle.lookup "schemas" = some (.map r (Generate.componentSchemas document)) := by
  unfold Generate.componentSchemas at h ⊢
  cases hc : document.get? "components" with
  | none => simp [hc] at h
  | some components =>
    cases hs : components.get? "schemas" with
    | none => simp [hc, hs] at h
    | some schemas =>
      obtain ⟨p, top, rfl, htop⟩ := Node.get?_eq_some hc
      obtain ⟨q, middle, rfl, hmiddle⟩ := Node.get?_eq_some hs
      cases schemas with
      | map r entries =>
        refine ⟨p, q, r, top, middle, rfl, htop, ?_⟩
        simp [hs, hmiddle, Node.entries?]
      | _ => simp [hc, hs, Node.entries?] at h

/-- **A component is expanded at its place**, and no other has its name. -/
theorem component_expands (hd : document.Proper) (he : document.expand = .ok expanded)
    (hx : (Generate.componentSchemas document).lookup key = some (.map p entries))
    (hy : (key, node) ∈ Generate.componentSchemas expanded) :
    Pointer.resolve document (componentPlace key) = .ok (some (.map p entries)) ∧
      Expands document (.map p entries) (componentPlace key) node := by
  have hne : Generate.componentSchemas document ≠ [] := by
    intro hnil
    rw [hnil] at hx
    cases hx
  obtain ⟨a, b, c, top, middle, hdocument, htop, hmiddle⟩ := componentSchemas_entries hne
  obtain ⟨a', b', c', top', middle', hexpanded, htop', hmiddle'⟩ := componentSchemas_entries (List.ne_nil_of_mem hy)
  have hroot := Expansion.expand_expands hd he
  have hresolve := Pointer.resolve_root document
  -- from the root to the components, to their schemas, and to the one of the name
  conv at hroot => arg 2; rw [hdocument]
  conv at hresolve => rhs; rw [hdocument]
  rw [hexpanded] at hroot
  obtain ⟨hr₁, h₁⟩ := hroot.entry hd hresolve (fun heq => absurd heq (by decide)) htop htop'
  obtain ⟨hr₂, h₂⟩ := h₁.entry hd hr₁ (fun heq => absurd heq (by decide)) hmiddle hmiddle'
  have hplace : Pointer.child (Pointer.child "#" "components") "schemas" = "#/components/schemas" := by decide
  rw [hplace] at hr₂ h₂
  refine h₂.entry hd hr₂ (fun hkey => ?_) hx (lookup_of_mem key node _ (h₂.keys hd hr₂) hy)
  -- a mapping under the key of a reference makes no reference
  unfold reference?
  rw [← hkey, hx]
  rfl

/-! ## Schemas with a place -/

theorem lookup_of_loneReference? {r : String} (h : Schema.loneReference? entries = some r) :
    entries.lookup referenceKey = some (.str r) := by
  unfold Schema.loneReference? at h
  split at h
  · cases h
    rfl
  · cases h

/-- A mapping is read to a schema at the place that it is stamped with, a lone reference apart that points elsewhere. -/
theorem exists_read? {place : String} (h : ∀ r, entries.lookup referenceKey = some (.str r) → r = place) :
    ∃ schema, Schema.read? (.map (some place) entries) = some schema ∧ schema.path? = some place := by
  unfold Schema.read?
  cases hl : Schema.loneReference? entries with
  | some r => exact ⟨_, rfl, congrArg some (h r (lookup_of_loneReference? hl))⟩
  | none =>
    dsimp only
    cases Schema.membersIn? "allOf" entries with
    | some members => exact ⟨_, rfl, rfl⟩
    | none =>
      dsimp only
      split
      · exact ⟨_, rfl, rfl⟩
      · split
        · exact ⟨_, rfl, rfl⟩
        · refine ⟨_, rfl, ?_⟩
          unfold Schema.leaf
          split
          · rfl
          · split <;> rfl
          · rfl

/-- **A component that is no reference is a schema at its place.** -/
theorem component_read (hd : document.Proper) (he : document.expand = .ok expanded)
    (hx : (Generate.componentSchemas document).lookup key = some (.map p entries))
    (hown : entries.lookup referenceKey = none) (hy : (key, node) ∈ Generate.componentSchemas expanded) :
    ∃ schema, Schema.read? node = some schema ∧ schema.path? = some (componentPlace key) := by
  obtain ⟨-, h⟩ := component_expands hd he hx hy
  have hreference : reference? entries = none := by
    unfold reference?
    rw [hown]
    rfl
  obtain ⟨ys, rfl, hparts⟩ := h.of_own hreference
  refine exists_read? fun r hr => ?_
  rw [Expansion.lookup_parts_none hparts hown] at hr
  cases hr

/-- **A reference to it is a schema at the same place**, whatever the reference comes to. -/
theorem reference_read (hd : document.Proper) (he : document.expand = .ok expanded)
    (hx : (Generate.componentSchemas document).lookup key = some (.map p entries))
    (hown : entries.lookup referenceKey = none) (hy : (key, node) ∈ Generate.componentSchemas expanded)
    {q : Option String} {path : String} {reference : Node}
    (h : Expands document (.map q [(referenceKey, .str (componentPlace key))]) path reference) :
    ∃ schema, Schema.read? reference = some schema ∧ schema.path? = some (componentPlace key) := by
  obtain ⟨hr, -⟩ := component_expands hd he hx hy
  obtain ⟨out, rfl, hmark⟩ := h.of_reference hd (Expansion.target_eq_ok.2 ⟨hr, nofun⟩) hown
  refine exists_read? fun r hlookup => ?_
  rw [hmark] at hlookup
  cases hlookup
  rfl

end Places

/-! ## Typedefs one after the other -/

namespace Generate

theorem generateTypedefs_append (ys : List (String × Node)) : ∀ xs : List (String × Node),
    generateTypedefs (xs ++ ys) = (generateTypedefs xs >>= fun _ => generateTypedefs ys)
  | [] => by rw [List.nil_append, generateTypedefs, pure_bind]
  | (name, node) :: rest => by
    rw [List.cons_append, generateTypedefs, generateTypedefs, generateTypedefs_append ys rest]
    cases Schema.read? node <;> simp only [bind_assoc]

theorem generateTypedefs_concat {xs : List (String × Node)} {key : String} {node : Node} {schema : Schema}
    (hread : Schema.read? node = some schema) {s t : Session} (h : generateTypedefs (xs ++ [(key, node)]) s = .ok () t) :
    ∃ u n, generateTypedefs xs s = .ok () u ∧ Codegen.generateTypedef (Naming.sanitize key) schema u = .ok n t := by
  rw [generateTypedefs_append] at h
  obtain ⟨_, u, hxs, h⟩ := bind_eq_ok.1 h
  rw [generateTypedefs, hread] at h
  obtain ⟨n, v, hmade, h⟩ := bind_eq_ok.1 h
  obtain ⟨-, rfl⟩ := pure_eq_ok.1 h
  exact ⟨u, n, hxs, hmade⟩

theorem generateModules_append {document : Node} {settings : Settings} {draft : Draft} {xs ys : List (String × Node)}
    {p : Progress} {t : Session} (h : generateTypedefs xs ⟨p.shared, draft⟩ = .ok () t) :
    generateModules document settings draft (xs ++ ys) p =
      generateModules document settings t.draft ys { p with shared := t.shared } := by
  have hdraft : onDraft draft (generateTypedefs (xs ++ ys)) p =
      onDraft t.draft (generateTypedefs ys) { p with shared := t.shared } := by
    unfold onDraft
    rw [generateTypedefs_append, bind_of_eq_ok h]
  unfold generateModules
  change EStateM.bind _ _ p = EStateM.bind _ _ _
  unfold EStateM.bind
  rw [hdraft]

end Generate

namespace Codegen

variable {s t : Session} {name n : String} {place description : Option String} {d : Definition}
  {body : Gen (Option Emit.TypedefBody)}

/-- An entry for a place without a definition defines the name; the rest adds a typedef, or notes that there is none. -/
theorem enterTypedef_unmade_eq_ok (hp : place.bind s.definitionAt? = none)
    (h : enterTypedef name place description body s = .ok n t) :
    ∃ d u made v, define name place false s = .ok d u ∧ body u = .ok made v ∧ t.shared.scopes = v.shared.scopes := by
  rw [enterTypedef_unmade hp] at h
  obtain ⟨d, u, hd, h⟩ := bind_eq_ok.1 h
  obtain ⟨made, v, hmade, h⟩ := bind_eq_ok.1 h
  refine ⟨d, u, made, v, hd, hmade, ?_⟩
  cases made with
  | some b =>
    cases h
    rfl
  | none =>
    have heq := h.symm.trans (leave_eq name place v)
    cases heq
    rfl

theorem enterTypedef_made_eq_ok (hp : place.bind s.definitionAt? = some d)
    (h : enterTypedef name place description body s = .ok n t) :
    ∃ e u target v, define name none false s = .ok e u ∧ nameOf d u = .ok target v ∧ t.shared = v.shared ∧
      (⟨name, .synonym (.named target), description⟩ : Emit.Typedef) ∈ t.draft.typedefs := by
  rw [enterTypedef_made hp] at h
  obtain ⟨e, u, he, h⟩ := bind_eq_ok.1 h
  obtain ⟨target, v, htarget, h⟩ := bind_eq_ok.1 h
  cases h
  exact ⟨e, u, target, v, he, htarget, rfl, List.mem_append_right _ List.mem_cons_self⟩

end Codegen

namespace Linking

variable {u w v : World} {log : List Referral} {settings : Settings}

/-! ## Registration -/

/-- **Whether a component is registered**: its place has a definition, either of the component's name in the module, or under
a name for which the module has an alias of the component's name. -/
structure Registered (w : World) (name place : String) (home : Scope.Id) (d : Definition) : Prop where
  home_ne_zero : home ≠ 0
  defined : .defined d ∈ w.scopes.table home
  specPath : d.specPath = some place
  named : (home = w.scope ∧ d.localName = name) ∨ ∃ target description, w.scopes.Designates w.scope target home d ∧
    (⟨name, .synonym (.named target), description⟩ : Emit.Typedef) ∈ w.session.draft.typedefs

theorem Acts.scope (hu : u.Numbered) (h : Acts u w) : w.scope = u.scope := by
  induction h with
  | refl => rfl
  | tail hacts hact ih => exact ((hact.kept (Acts.numbered hu hacts)).scope).trans ih

theorem World.Sound.registered_own (hu : u.Sound log) {name place : String} (hname : Dotless name) {schema : Schema}
    (hschema : schema.path? = some place) (hp : u.session.definitionAt? place = none) {n : String} (hacts : Acts u w)
    (h : Codegen.generateTypedef name schema u.session = .ok n w.session) : ∃ d, Registered w name place u.scope d := by
  have hunmade : u.Unmade schema.path? := by rw [hschema]; exact hp
  obtain ⟨d, s, made, s', hd, hmade, hscopes⟩ := Codegen.enterTypedef_unmade_eq_ok hunmade h
  have henter := Act.enter name schema.path? hname hunmade hd
  obtain ⟨log', -, hs⟩ := henter.sound hu
  -- the body is made by acts, and what was defined before them stays
  have hbody := follows_bodyOf hname schema _ hs.numbered (List.nil_subset _)
  change Ends _ _ (Codegen.bodyOf name schema s) at hbody
  rw [hmade] at hbody
  obtain ⟨v, hbodyActs, rfl, -, -⟩ := hbody
  obtain ⟨t, ht, rfl⟩ := Codegen.define_eq_ok hd
  obtain ⟨hlocal, hplace, hmem, -⟩ := hu.numbered.entered ht
  have hlater := (Acts.reaches hbodyActs).designates hs (.own hmem)
  have hscope := Acts.scope hu.numbered hacts
  refine ⟨d, hu.numbered.isModule.1, ?_, hplace.trans hschema, .inl ⟨hscope.symm, hlocal⟩⟩
  rw [World.scopes, hscopes]
  exact hlater.defined

theorem World.Sound.registered_alias (hu : u.Sound log) {name place : String} (hname : Dotless name) {schema : Schema}
    (hschema : schema.path? = some place) {c : Definition} (hp : u.session.definitionAt? place = some c) {n : String}
    (hacts : Acts u w) (h : Codegen.generateTypedef name schema u.session = .ok n w.session) :
    ∃ home d, Registered w name place home d := by
  have hfound : schema.path?.bind u.session.definitionAt? = some c := by rw [hschema]; exact hp
  obtain ⟨e, s, target, s', he, huse, hshared, ht⟩ := Codegen.enterTypedef_made_eq_ok hfound h
  have henter := Act.enter name none hname rfl he
  have hk := henter.kept hu.numbered
  obtain ⟨added, hg⟩ := hk.grown
  have hfound' := Codegen.definitionAt?_mono hu.numbered.scopes hu.numbered.isModule hk.sound hg hk.scope hp
  have hn := hk.numbered hu.numbered
  obtain ⟨home, d, h0, -, hplace, hdesignates⟩ := hn.used hfound' huse
  have hscope : w.scope = s'.draft.scope :=
    ((Acts.scope hu.numbered hacts).trans hk.scope.symm).trans ((Act.use place hfound' huse).kept hn).scope.symm
  have hlater : w.scopes.Designates w.scope target home d := by
    rw [hscope, World.scopes, hshared]
    exact hdesignates
  exact ⟨home, d, h0, hlater.defined, hplace, .inr ⟨target, _, hlater, ht⟩⟩

/-- **A named schema is registered by the acts that make its typedef.** -/
theorem World.Sound.registered (hu : u.Sound log) {name place : String} (hname : Dotless name) {schema : Schema}
    (hschema : schema.path? = some place) {n : String} {t : Session}
    (h : Codegen.generateTypedef name schema u.session = .ok n t) :
    ∃ w home d, Acts u w ∧ w.session = t ∧ w.waiting = u.waiting ∧ Registered w name place home d := by
  have hends := follows_generateTypedef hname schema u hu.numbered (List.nil_subset _)
  rw [h] at hends
  obtain ⟨w, hacts, rfl, hwaiting, -⟩ := hends
  cases hp : u.session.definitionAt? place with
  | none =>
    obtain ⟨d, hd⟩ := hu.registered_own hname hschema hp hacts h
    exact ⟨w, u.scope, d, hacts, rfl, hwaiting, hd⟩
  | some c =>
    obtain ⟨home, d, hd⟩ := hu.registered_alias hname hschema hp hacts h
    exact ⟨w, home, d, hacts, rfl, hwaiting, hd⟩

/-! ## References afterwards -/

/-- Using a definition makes nothing: no typedef, and no definition. -/
theorem World.Numbered.use_makes_nothing (hn : w.Numbered) {place name : String} {c : Definition} {s : Session}
    (hp : w.session.definitionAt? place = some c) (h : Codegen.nameOf c w.session = .ok name s) :
    s.draft.typedefs = w.session.draft.typedefs ∧
      ∀ id e, .defined e ∈ s.shared.scopes.table id ↔ .defined e ∈ w.scopes.table id := by
  obtain ⟨t, home, e, -, himports, -, hreport⟩ := hn.use hp h
  obtain ⟨hscopes, -, -⟩ := reportBodiless_kept hreport
  obtain ⟨added, hg, -⟩ := himports.grown
  refine ⟨(reportBodiless_shared hreport).1, fun id e => ?_⟩
  rw [hscopes]
  exact ⟨himports.defined, hg.mem⟩

/-- **Once a component is registered, every schema at its place is a name for its definition**, and none is made again. -/
theorem Registered.resolveType (hw : w.Sound log) {name place : String} {home : Scope.Id} {d : Definition}
    (h : Registered w name place home d) (hv : Reaches w v) {schema : Schema} (hschema : schema.path? = some place)
    (wanted : Option String) :
    ∃ localName s, Codegen.resolveType (some schema) wanted v.session = .ok (.named localName) s ∧
      Leads s localName home d ∧ s.draft.typedefs = v.session.draft.typedefs ∧
      ∀ id e, .defined e ∈ s.shared.scopes.table id ↔ .defined e ∈ v.scopes.table id := by
  obtain ⟨log', -, hsound⟩ := hv.sound hw
  have hlater := hv.designates hw (.own h.defined)
  have hn := hsound.numbered
  obtain ⟨c, localName, s, hc, huse, htype⟩ := typeOf_use hn ⟨home, h.home_ne_zero, d, hlater.defined, h.specPath⟩
    hschema (wanted.filter (!·.isEmpty))
  obtain ⟨_, -, hused⟩ := (Act.use place hc huse).sound hsound
  obtain ⟨home', d', h0', hd', hp', hdesignates⟩ := hn.used hc huse
  -- what was found is the definition that was registered, since no place has two
  obtain ⟨rfl, rfl⟩ := hn.scopes.placed home h.home_ne_zero home' h0' d d' place hlater.defined hd' h.specPath hp'
  obtain ⟨htypedefs, hdefined⟩ := hn.use_makes_nothing hc huse
  exact ⟨localName, s, htype, leads_of_designates hused.numbered hdesignates, htypedefs, hdefined⟩

/-! ## The run -/

theorem definitions_made {schemas : List (String × Node)} {t : Session}
    (h : Generate.generateTypedefs schemas (World.definitions settings).session = .ok () t) :
    ∃ w, Acts (.definitions settings) w ∧ w.session = t ∧ w.waiting = [] := by
  have hends := follows_generateTypedefs schemas (World.definitions settings) (definitions_working settings).sound.numbered
    (List.nil_subset _)
  rw [h] at hends
  obtain ⟨w, hacts, hsession, hwaiting, -⟩ := hends
  exact ⟨w, hacts, hsession, hwaiting⟩

/-- **A run comes past the moment at which it has made some of those typedefs**, and ends at a later one. -/
theorem definitions_runEnds (hname : Dotless settings.defaultApiName) {document : Node} {xs ys : List (String × Node)}
    (hschemas : Generate.componentSchemas document = xs ++ ys) (hxs : xs ≠ []) (hw : w.Sound log)
    (hacts : Acts (.definitions settings) w) (hwaiting : w.waiting = [])
    (hmade : Generate.generateTypedefs xs (World.definitions settings).session = .ok () w.session) :
    RunEnds settings w (fun _ p => ∃ v, Reaches w v ∧ v.drafts = drafted settings p.modules ∧ v.session.shared = p.shared)
      (Generate.generateAll document settings Progress.start) := by
  have hmap : document.isMap = true := by
    have hne : Generate.componentSchemas document ≠ [] := by
      rw [hschemas]
      exact List.append_ne_nil_of_left_ne_nil hxs ys
    obtain ⟨p, q, r, top, middle, rfl, -, -⟩ := componentSchemas_entries hne
    rfl
  have hworking : Working settings w { Progress.definitions settings with shared := w.session.shared } w.session.draft w log :=
    ⟨.refl, hw, rfl, rfl, hwaiting, hacts.earlier, nofun⟩
  rw [generateAll_mapping hmap, hschemas, Generate.generateModules_append hmade]
  refine (hworking.generateModules hname document ys).mono fun _ p ⟨v, log', h⟩ => ?_
  exact ⟨v, h.reached, h.drafts, h.shared⟩

/-- **References to components are names.**  In every run for an expanded document, let the module of the component schemas
have made the typedefs up to a component that has no mark of a reference in the document.  Then there is a moment of the run
at which the component is registered; the run ends no earlier; and at every later moment, whatever a reference to the component
comes to (`Expansion.within_expands`) is read to a schema whose type is a name that leads to its definition, with no typedef
and no definition made for it, also if a name is wanted. -/
theorem component_named {values : List (String × Node)} (hs : Settings.ofValues values = .ok settings)
    {document expanded : Node} (hd : document.Proper) (he : document.expand = .ok expanded) {key : String}
    {p : Option String} {entries : List (String × Node)}
    (hx : (Generate.componentSchemas document).lookup key = some (.map p entries)) (hown : entries.lookup "$ref" = none)
    {before after : List (String × Node)} {node : Node}
    (hschemas : Generate.componentSchemas expanded = before ++ (key, node) :: after) {t : Session}
    (hmade : Generate.generateTypedefs (before ++ [(key, node)]) (World.definitions settings).session = .ok () t) :
    ∃ w home d, Reaches (.start settings) w ∧ w.session = t ∧
      Registered w (Naming.sanitize key) (componentPlace key) home d ∧
      RunEnds settings w (fun _ p => ∃ v, Reaches w v ∧ v.drafts = drafted settings p.modules ∧ v.session.shared = p.shared)
        (Generate.generateAll expanded settings Progress.start) ∧
      ∀ v, Reaches w v → ∀ q path reference,
        Expansion.Expands document (.map q [("$ref", .str (componentPlace key))]) path reference →
        ∃ schema, Schema.read? reference = some schema ∧ ∀ wanted, ∃ name s,
          Codegen.resolveType (some schema) wanted v.session = .ok (.named name) s ∧ Leads s name home d ∧
          s.draft.typedefs = v.session.draft.typedefs ∧
          ∀ id e, .defined e ∈ s.shared.scopes.table id ↔ .defined e ∈ v.scopes.table id := by
  have hmem : (key, node) ∈ Generate.componentSchemas expanded := by rw [hschemas]; simp
  -- the moment before the component, and the one after it
  obtain ⟨schema, hread, hschema⟩ := component_read hd he hx hown hmem
  obtain ⟨s, n, hbefore, hlast⟩ := Generate.generateTypedefs_concat hread hmade
  obtain ⟨u, hfirst, rfl, hu⟩ := definitions_made hbefore
  obtain ⟨log, -, husound⟩ := hfirst.reaches.sound (definitions_working settings).sound
  obtain ⟨w, home, d, hacts, rfl, hw, hregistered⟩ :=
    husound.registered (Naming.plain_sanitize key).dotless hschema hlast
  obtain ⟨log', -, hwsound⟩ := hacts.reaches.sound husound
  have hreached : Reaches (.start settings) w :=
    (definitions_working settings).reached.trans (Acts.reaches (hfirst.trans hacts))
  refine ⟨w, home, d, hreached, rfl, hregistered, ?_, fun v hv q path reference h => ?_⟩
  · rw [List.append_cons] at hschemas
    exact definitions_runEnds (Settings.dotless_defaultApiName hs) hschemas (by simp) hwsound (hfirst.trans hacts)
      (hw.trans hu) hmade
  · obtain ⟨schema', hread', hschema'⟩ := reference_read hd he hx hown hmem h
    exact ⟨schema', hread', fun wanted => hregistered.resolveType hwsound hv hschema' wanted⟩

/-! ## Components that are references -/

def referenceTo (key : String) : Node := .map none [("$ref", .str (componentPlace key))]

def widget : List (String × Node) :=
  [("type", .str "object"), ("properties", .map none [("id", .map none [("type", .str "integer")])])]

/-- A widget, another name for it, and a holder of both. -/
def gadgets : Node :=
  let holder : Node := .map none [("type", .str "object"),
    ("properties", .map none [("gadget", referenceTo "Gadget"), ("widget", referenceTo "Widget")])]
  .map none [("components", .map none [("schemas", .map none [
    ("Widget", .map none widget), ("Gadget", referenceTo "Widget"), ("Holder", holder)])])]

/-- The widget, expanded. -/
def widgetEntries : List (String × Node) :=
  [("type", .str "object"), ("properties", .map (some "#/components/schemas/Widget/properties")
    [("id", .map (some "#/components/schemas/Widget/properties/id") [("type", .str "integer")])])]

/-- What a reference to a widget, or to another name for it, comes to. -/
def widgetAt (key : String) : Node :=
  .map (some (componentPlace key)) (("$ref", .str (componentPlace "Widget")) :: widgetEntries)

def gadgetsOut : Node :=
  let holder : Node := .map (some (componentPlace "Holder")) [("type", .str "object"),
    ("properties", .map (some "#/components/schemas/Holder/properties")
      [("gadget", widgetAt "Gadget"), ("widget", widgetAt "Widget")])]
  .map (some "#") [("components", .map (some "#/components") [("schemas", .map (some "#/components/schemas") [
    ("Widget", .map (some (componentPlace "Widget")) widgetEntries), ("Gadget", widgetAt "Widget"), ("Holder", holder)])])]

theorem expand_gadgets : gadgets.expand = .ok gadgetsOut := by decide +kernel

theorem widget_named : ∃ t w home d,
    Generate.generateTypedefs [("Widget", .map (some (componentPlace "Widget")) widgetEntries)]
      (World.definitions petSettings).session = .ok () t ∧
    Reaches (.start petSettings) w ∧ w.session = t ∧ Registered w "Widget" (componentPlace "Widget") home d ∧
    ∀ v, Reaches w v → ∀ path reference, Expansion.Expands gadgets (referenceTo "Widget") path reference →
      ∃ schema, Schema.read? reference = some schema ∧ ∀ wanted, ∃ name s,
        Codegen.resolveType (some schema) wanted v.session = .ok (.named name) s ∧ Leads s name home d ∧
        s.draft.typedefs = v.session.draft.typedefs := by
  obtain ⟨u, t, hmade⟩ := exists_of_succeeds (r := Generate.generateTypedefs
    [("Widget", .map (some (componentPlace "Widget")) widgetEntries)] (World.definitions petSettings).session)
    (by decide +kernel)
  have hwidget : (Generate.componentSchemas gadgets).lookup "Widget" = some (.map none widget) := rfl
  have hschemas : Generate.componentSchemas gadgetsOut =
      [] ++ ("Widget", .map (some (componentPlace "Widget")) widgetEntries) :: (Generate.componentSchemas gadgetsOut).drop 1 :=
    rfl
  obtain ⟨w, home, d, hreached, hsession, hregistered, -, hnamed⟩ :=
    component_named ofValues_petValues (by decide) expand_gadgets hwidget rfl hschemas hmade
  refine ⟨t, w, home, d, hmade, hreached, hsession, hregistered, fun v hv path reference h => ?_⟩
  obtain ⟨schema, hread, htypes⟩ := hnamed v hv none path reference h
  refine ⟨schema, hread, fun wanted => ?_⟩
  obtain ⟨name, s, htype, hleads, htypedefs, -⟩ := htypes wanted
  exact ⟨name, s, htype, hleads, htypedefs⟩

def widgetSchema (key : String) : Schema :=
  .object ⟨some (componentPlace key), none⟩
    [("id", .primitive ⟨some "#/components/schemas/Widget/properties/id", none⟩ ["integer"])] []

def declarations (s : Session) : List String := s.draft.typedefs.map Emit.Typedef.declaration

/-- **A reference to another name for a widget is no name.**  The widget and its other name are registered, and still the
type of the holder's reference to the other name is spelled out; if a name is wanted, a second widget is made of it. -/
theorem gadget_inlined : gadgets.expand = .ok gadgetsOut ∧
    Pointer.resolve gadgets "#/components/schemas/Holder/properties/gadget" = .ok (some (referenceTo "Gadget")) ∧
    Pointer.resolve gadgetsOut "#/components/schemas/Holder/properties/gadget" = .ok (some (widgetAt "Gadget")) ∧
    Schema.read? (widgetAt "Gadget") = some (widgetSchema "Gadget") ∧
    ∃ t type t' other s,
      Generate.generateTypedefs ((Generate.componentSchemas gadgetsOut).take 2)
        (World.definitions petSettings).session = .ok () t ∧
      declarations t = ["export interface Widget \x7b\n  id?: number;\n\x7d\n", "export type Gadget = Widget;\n"] ∧
      Codegen.resolveType (some (widgetSchema "Gadget")) none t = .ok type t' ∧ type.text = "object" ∧ type.names = [] ∧
      Codegen.resolveType (some (widgetSchema "Gadget")) (some "HolderGadget") t = .ok other s ∧
      declarations s = declarations t ++ ["export interface HolderGadget \x7b\n  id?: number;\n\x7d\n"] := by
  refine ⟨expand_gadgets, by decide +kernel, by decide +kernel, rfl, ?_⟩
  have hrun : (match Generate.generateTypedefs ((Generate.componentSchemas gadgetsOut).take 2)
      (World.definitions petSettings).session with
    | .ok _ t =>
      match Codegen.resolveType (some (widgetSchema "Gadget")) none t,
        Codegen.resolveType (some (widgetSchema "Gadget")) (some "HolderGadget") t with
      | .ok type _, .ok _ s => some (declarations t, type.text, type.names, declarations s)
      | _, _ => none
    | .error .. => none) = some (["export interface Widget \x7b\n  id?: number;\n\x7d\n", "export type Gadget = Widget;\n"],
      "object", [], ["export interface Widget \x7b\n  id?: number;\n\x7d\n", "export type Gadget = Widget;\n",
        "export interface HolderGadget \x7b\n  id?: number;\n\x7d\n"]) := by
    decide +kernel
  obtain ⟨_, t, hmade⟩ := exists_of_succeeds (r := Generate.generateTypedefs ((Generate.componentSchemas gadgetsOut).take 2)
    (World.definitions petSettings).session) (by decide +kernel)
  simp only [hmade] at hrun
  split at hrun
  · rename_i type t' other s htype hother
    simp only [Option.some.injEq, Prod.mk.injEq] at hrun
    obtain ⟨ht, htext, hnames, hs⟩ := hrun
    exact ⟨t, type, t', other, s, hmade, ht, htype, htext, hnames, hother, by rw [hs, ht]; rfl⟩
  · cases hrun

end Linking
end TypedClient
