import TypedClient.Proofs.Linking.Components
import TypedClient.Proofs.Making.Apart
/-!
# Reordering — runs for the same operations in another order

The order of the operations decides which of them gives a schema its name, and which names are taken when an import looks for a
free one.  What a run asks of its document beyond that is the same in any order (`SameOperations.feasible`).  So a run for the
operations in another order comes to its end as well, or fails for a name that is taken or a value without a literal; and it
comes to its end for certain where names are apart and values writable (`success_reordered`).
-/
namespace TypedClient

namespace Making

open Codegen (Session)
open Operation (Spec collect collectItem classOf)

variable {document document' : Node} {settings : Settings} {s₀ : Session}

/-! ## Reorderings -/

/-- **A mapping with its entries in another order.** -/
inductive Shuffled : Node → Node → Prop where
  | same (node : Node) : Shuffled node node
  | entries {place : Option String} {xs ys : List (String × Node)} (hkeys : (xs.map (·.1)).Nodup) (h : xs.Perm ys) :
    Shuffled (.map place xs) (.map place ys)

/-- **A document with its paths, and the entries of each of them, in another order.** -/
inductive Reordered : Node → Node → Prop where
  | paths {place place' : Option String} (before : List (String × Node)) {after items moved items' : List (String × Node)}
    (h : items.Perm moved) (hitems : List.Forall₂ (fun x y => x.1 = y.1 ∧ Shuffled x.2 y.2) moved items') :
    Reordered (.map place (before ++ ("paths", .map place' items) :: after))
      (.map place (before ++ ("paths", .map place' items') :: after))

theorem Shuffled.get? {item item' : Node} (h : Shuffled item item') (key : String) : item.get? key = item'.get? key := by
  cases h with
  | same => rfl
  | entries hkeys h => exact lookup_perm hkeys h key

theorem Shuffled.mem_entries {item item' : Node} (h : Shuffled item item') (entry : String × Node) :
    entry ∈ item.entries?.getD [] ↔ entry ∈ item'.entries?.getD [] := by
  cases h with
  | same => rfl
  | entries _ h => exact h.mem_iff

/-! ## The same operations -/

/-- **An operation and itself in another order**: it stands beside the same declarations for its path. -/
structure Twin (spec spec' : Spec) : Prop where
  path : spec.path = spec'.path
  verb : spec.verb = spec'.verb
  operation : spec.operation = spec'.operation
  item : ∀ key, spec.pathItem.get? key = spec'.pathItem.get? key

namespace Twin

variable {spec spec' : Spec} (h : Twin spec spec')
include h

theorem symm : Twin spec' spec :=
  ⟨h.path.symm, h.verb.symm, h.operation.symm, fun key => (h.item key).symm⟩

theorem name : spec.name = spec'.name := by
  unfold Spec.name
  rw [h.path, h.verb, h.operation]

theorem parameters : spec.parameters = spec'.parameters := by
  unfold Spec.parameters Operation.parametersOf
  rw [h.item "parameters", h.operation]

theorem classOf (hdocument : document.get? "tags" = document'.get? "tags") (default : String) :
    classOf document default spec = classOf document' default spec' := by
  unfold Operation.classOf
  rw [hdocument, h.operation]

theorem needs {schema : Option Schema} {wanted : String} (hn : spec.Needs schema wanted) : spec'.Needs schema wanted := by
  cases hn with
  | parameter hd hp =>
    rw [h.name]
    exact .parameter (h.parameters ▸ hd) hp
  | body hb =>
    rw [h.name]
    exact .body (h.operation ▸ hb)
  | response hr ha hc hm hmap hu =>
    rw [h.name]
    exact .response (h.operation ▸ hr) ha hc hm hmap hu

theorem generable (hg : spec.Generable) : spec'.Generable where
  filled := h.parameters ▸ h.path ▸ hg.filled
  unwrapped := h.operation ▸ hg.unwrapped

theorem readable (hr : spec.Readable) : spec'.Readable := by
  unfold Spec.Readable at hr ⊢
  rwa [← h.operation]

end Twin

theorem Shuffled.twins {item item' : Node} (h : Shuffled item item') {path : String} {spec : Spec}
    (hspec : spec ∈ collectItem path item) : ∃ spec' ∈ collectItem path item', Twin spec spec' := by
  unfold collectItem at hspec
  obtain ⟨⟨verb, operation⟩, hentry, heq⟩ := List.mem_filterMap.1 hspec
  dsimp only at heq
  split at heq
  · rename_i hverb
    cases heq
    refine ⟨⟨path, verb, operation, item'⟩, ?_, rfl, rfl, rfl, h.get?⟩
    exact List.mem_filterMap.2 ⟨_, (h.mem_entries _).1 hentry, if_pos hverb⟩
  · cases heq

/-- **Two documents with the same operations**, which differ in the order of them only. -/
structure SameOperations (document document' : Node) : Prop where
  isMap : document.isMap = document'.isMap
  get? : ∀ key ≠ "paths", document.get? key = document'.get? key
  forth : ∀ spec ∈ collect document, ∃ spec' ∈ collect document', Twin spec spec'
  back : ∀ spec' ∈ collect document', ∃ spec ∈ collect document, Twin spec' spec

theorem SameOperations.symm (h : SameOperations document document') : SameOperations document' document :=
  ⟨h.isMap.symm, fun key hkey => (h.get? key hkey).symm, h.back, h.forth⟩

theorem Shuffled.symm {item item' : Node} (h : Shuffled item item') : Shuffled item' item := by
  cases h with
  | same => exact .same _
  | entries hkeys h => exact .entries ((h.map _).nodup_iff.1 hkeys) h.symm

/-- The operations of paths have twins among those of the same paths, whatever the order. -/
theorem twins_of_items {xs ys : List (String × Node)}
    (h : ∀ x ∈ xs, ∃ y ∈ ys, x.1 = y.1 ∧ Shuffled x.2 y.2) {spec : Spec}
    (hspec : spec ∈ xs.flatMap fun x => collectItem x.1 x.2) :
    ∃ spec' ∈ ys.flatMap fun y => collectItem y.1 y.2, Twin spec spec' := by
  obtain ⟨x, hx, hspec⟩ := List.mem_flatMap.1 hspec
  obtain ⟨y, hy, hkey, hshuffled⟩ := h x hx
  obtain ⟨spec', hspec', htwin⟩ := hshuffled.twins hspec
  exact ⟨spec', List.mem_flatMap.2 ⟨y, hy, hkey ▸ hspec'⟩, htwin⟩

/-- **A reordered document has the same operations.** -/
theorem Reordered.same (h : Reordered document document') : SameOperations document document' := by
  obtain @⟨place, place', before, after, items, moved, items', h, hitems⟩ := h
  obtain ⟨hforth, hback⟩ := exists_of_forall₂ hitems
  -- the entry of the paths is the first of its key, or it is not read at all
  have hlookup : ∀ paths : Node, (before ++ ("paths", paths) :: after).lookup "paths" =
      (before.lookup "paths").or (some paths) := by
    intro paths
    rw [List.lookup_append, List.lookup_cons_self]
  have hitems? : ∀ {xs ys : List (String × Node)}, (∀ x ∈ xs, ∃ y ∈ ys, x.1 = y.1 ∧ Shuffled x.2 y.2) →
      ∀ spec ∈ collect (.map place (before ++ ("paths", .map place' xs) :: after)),
        ∃ spec' ∈ collect (.map place (before ++ ("paths", .map place' ys) :: after)), Twin spec spec' := by
    intro xs ys hxs spec hspec
    unfold collect Node.get? at hspec ⊢
    simp only [hlookup] at hspec ⊢
    cases hb : before.lookup "paths" with
    | some paths =>
      rw [hb] at hspec
      exact ⟨spec, hspec, rfl, rfl, rfl, fun _ => rfl⟩
    | none =>
      rw [hb] at hspec
      exact twins_of_items hxs hspec
  refine ⟨rfl, fun key hkey => ?_, hitems? fun x hx => ?_, hitems? fun y hy => ?_⟩
  · unfold Node.get?
    dsimp only
    rw [List.lookup_append, List.lookup_append, List.lookup_cons, List.lookup_cons, beq_false_of_ne hkey]
  · exact hforth x (h.mem_iff.1 hx)
  · obtain ⟨x, hx, hkey, hshuffled⟩ := hback y hy
    exact ⟨x, h.mem_iff.2 hx, hkey.symm, hshuffled.symm⟩

/-! ## What does not depend on the order -/

namespace SameOperations

variable (h : SameOperations document document')
include h

theorem tags : document.get? "tags" = document'.get? "tags" :=
  h.get? "tags" (by decide)

theorem componentSchemas : Generate.componentSchemas document = Generate.componentSchemas document' := by
  unfold Generate.componentSchemas
  rw [h.get? "components" (by decide)]

/-- **What a run asks of its document does not depend on the order of the operations.** -/
theorem feasible (hf : Feasible document settings s₀) : Feasible document' settings s₀ where
  isMap := h.isMap ▸ hf.isMap
  definitions := h.componentSchemas ▸ hf.definitions
  printed := hf.printed
  classes spec' hspec' := by
    obtain ⟨spec, hspec, htwin⟩ := h.back spec' hspec'
    rw [htwin.classOf h.symm.tags]
    exact hf.classes spec hspec
  operations spec' hspec' := by
    obtain ⟨spec, hspec, htwin⟩ := h.back spec' hspec'
    obtain ⟨hgenerable, hreadable⟩ := hf.operations spec hspec
    exact ⟨htwin.symm.generable hgenerable, htwin.symm.readable hreadable⟩

theorem askedIn {default c name : String} {place : Option String} (hasked : AskedIn document default c name place) :
    AskedIn document' default c name place := by
  obtain ⟨spec, hspec, hclass, schema, wanted, hneeds, hasked⟩ := hasked
  obtain ⟨spec', hspec', htwin⟩ := h.forth spec hspec
  exact ⟨spec', hspec', htwin.classOf h.tags default ▸ hclass, schema, wanted, htwin.needs hneeds, hasked⟩

theorem foreign {c name : String} (hf : Foreign document settings c name) : Foreign document' settings c name := by
  rcases hf with hcomponent | ⟨other, hne, place, hasked⟩
  · left
    unfold componentNames at hcomponent ⊢
    rwa [← h.componentSchemas]
  · exact .inr ⟨other, hne, place, h.askedIn hasked⟩

/-- **Whether names are apart does not depend on the order of the operations.** -/
theorem namesApart (hapart : NamesApart document settings) : NamesApart document' settings where
  ofClass hasked := hapart.ofClass (h.symm.askedIn hasked)
  ofSchemas hasked hasked' := hapart.ofSchemas (h.symm.askedIn hasked) (h.symm.askedIn hasked')
  ofImports hasked other hforeign := hapart.ofImports (h.symm.askedIn hasked) other (h.symm.foreign hforeign)

theorem writable (hwritable : Writable document) : Writable document' := by
  intro spec' hspec' schema wanted hneeds
  obtain ⟨spec, hspec, htwin⟩ := h.back spec' hspec'
  exact hwritable spec hspec schema wanted (htwin.needs hneeds)

/-- A run for the operations in another order fails only for a name that is taken or a value without a literal. -/
theorem failure_of_ok {values : List (String × Node)} (hs : Settings.ofValues values = .ok settings)
    (hok : (generate document settings).failure = none) :
    ∀ e, (generate document' settings).failure = some e → Accidental e := by
  obtain ⟨s₀, hf⟩ := feasible_of_ok hs hok
  exact failure_of_feasible hs (h.feasible hf)

/-- A run for the operations in another order comes to its end where names are apart and values writable. -/
theorem ok_of_ok {values : List (String × Node)} (hs : Settings.ofValues values = .ok settings)
    (hapart : NamesApart document settings) (hwritable : Writable document)
    (hok : (generate document settings).failure = none) : (generate document' settings).failure = none := by
  obtain ⟨s₀, hf⟩ := feasible_of_ok hs hok
  exact failure_none_of_apart hs (h.feasible hf) (h.namesApart hapart) (h.writable hwritable)

end SameOperations

/-- **Whether a run comes to its end does not depend on the order of the operations**, where names are apart and values
writable.  Anywhere, a run that does not come to its end when another order does fails for a name that is taken or a value
without a literal. -/
theorem success_reordered {values : List (String × Node)} (hs : Settings.ofValues values = .ok settings)
    (h : Reordered document document') :
    ((generate document settings).failure = none → ∀ e, (generate document' settings).failure = some e → Accidental e) ∧
    ((generate document' settings).failure = none → ∀ e, (generate document settings).failure = some e → Accidental e) ∧
    (NamesApart document settings → Writable document →
      ((generate document settings).failure = none ↔ (generate document' settings).failure = none)) := by
  have hsame := h.same
  refine ⟨hsame.failure_of_ok hs, hsame.symm.failure_of_ok hs, fun hapart hwritable => ⟨?_, ?_⟩⟩
  · exact hsame.ok_of_ok hs hapart hwritable
  · exact hsame.symm.ok_of_ok hs (hsame.namesApart hapart) (hsame.writable hwritable)

/-! ## Widgets, listed and created -/

/-- Two calls for widgets, one that answers with a component and one that is sent an object of its own. -/
def listWidgets (component : String) : String × Node :=
  ("get", .map none [("operationId", .str "listWidgets"), ("responses", .map none [("200", .map none [("content",
    .map none [("application/json", .map none [("schema", Linking.referenceTo component)])])])])])

def createWidget : String × Node :=
  ("post", .map none [("operationId", .str "createWidget"), ("requestBody", .map none [("content",
    .map none [("application/json", .map none [("schema", .map none [("type", .str "object")])])])]),
    ("responses", .map none [("204", .map none [])])])

/-- A document of one component and one path. -/
def widgets (component : String) (calls : List (String × Node)) : Node :=
  .map none [("components", .map none [("schemas", .map none [(component, .map none [("type", .str "object")])])]),
    ("paths", .map none [("/widgets", .map none calls)])]

/-- The calls, expanded. -/
def listWidgetsOut (component : String) : String × Node :=
  let place := "#/paths/~1widgets/get"
  ("get", .map (some place) [("operationId", .str "listWidgets"), ("responses", .map (some (place ++ "/responses"))
    [("200", .map (some (place ++ "/responses/200")) [("content", .map (some (place ++ "/responses/200/content"))
      [("application/json", .map (some (place ++ "/responses/200/content/application~1json"))
        [("schema", .map (some (componentPlace component))
          [("$ref", .str (componentPlace component)), ("type", .str "object")])])])])])])

def createWidgetOut : String × Node :=
  let place := "#/paths/~1widgets/post"
  ("post", .map (some place) [("operationId", .str "createWidget"), ("requestBody", .map (some (place ++ "/requestBody"))
    [("content", .map (some (place ++ "/requestBody/content"))
      [("application/json", .map (some (place ++ "/requestBody/content/application~1json"))
        [("schema", .map (some (place ++ "/requestBody/content/application~1json/schema")) [("type", .str "object")])])])]),
    ("responses", .map (some (place ++ "/responses")) [("204", .map (some (place ++ "/responses/204")) [])])])

/-- The document, expanded. -/
def widgetsOut (component : String) (calls : List (String × Node)) : Node :=
  .map (some "#") [("components", .map (some "#/components") [("schemas", .map (some "#/components/schemas")
      [(component, .map (some (componentPlace component)) [("type", .str "object")])])]),
    ("paths", .map (some "#/paths") [("/widgets", .map (some "#/paths/~1widgets") calls)])]

theorem reordered_widgets (component : String) :
    Reordered (widgetsOut component [listWidgetsOut component, createWidgetOut])
      (widgetsOut component [createWidgetOut, listWidgetsOut component]) := by
  have hcalls : Shuffled (.map (some "#/paths/~1widgets") [listWidgetsOut component, createWidgetOut])
      (.map (some "#/paths/~1widgets") [createWidgetOut, listWidgetsOut component]) :=
    .entries (show ["get", "post"].Nodup by decide) (.swap _ _ _)
  exact .paths [_] (List.Perm.refl _) (.cons ⟨rfl, hcalls⟩ .nil)

theorem widgets_reordered : (widgets "Widget" [listWidgets "Widget", createWidget]).expand =
      .ok (widgetsOut "Widget" [listWidgetsOut "Widget", createWidgetOut]) ∧
    ((generate (widgetsOut "Widget" [listWidgetsOut "Widget", createWidgetOut]) Linking.petSettings).failure = none ↔
      (generate (widgetsOut "Widget" [createWidgetOut, listWidgetsOut "Widget"]) Linking.petSettings).failure = none) := by
  refine ⟨by decide +kernel, ?_⟩
  refine (success_reordered Linking.ofValues_petValues (reordered_widgets "Widget")).2.2 ?_ ?_
  · exact namesApart_of_check (by decide +kernel)
  · exact writable_of_check (by decide +kernel)

/-- **A component that is called like the body of a call** is imported under the name that the body is to have, if the call
that answers with it comes first. -/
theorem widgets_clash :
    (widgets "CreateWidgetRequest" [createWidget, listWidgets "CreateWidgetRequest"]).expand =
      .ok (widgetsOut "CreateWidgetRequest" [createWidgetOut, listWidgetsOut "CreateWidgetRequest"]) ∧
    (widgets "CreateWidgetRequest" [listWidgets "CreateWidgetRequest", createWidget]).expand =
      .ok (widgetsOut "CreateWidgetRequest" [listWidgetsOut "CreateWidgetRequest", createWidgetOut]) ∧
    Reordered (widgetsOut "CreateWidgetRequest" [listWidgetsOut "CreateWidgetRequest", createWidgetOut])
      (widgetsOut "CreateWidgetRequest" [createWidgetOut, listWidgetsOut "CreateWidgetRequest"]) ∧
    (generate (widgetsOut "CreateWidgetRequest" [createWidgetOut, listWidgetsOut "CreateWidgetRequest"])
      Linking.petSettings).failure = none ∧
    (generate (widgetsOut "CreateWidgetRequest" [listWidgetsOut "CreateWidgetRequest", createWidgetOut])
      Linking.petSettings).failure = some (.conflict ⟨"CreateWidgetRequest", "DefaultApi"⟩) :=
  ⟨by decide +kernel, by decide +kernel, reordered_widgets _, by decide +kernel, by decide +kernel⟩

end Making
end TypedClient
