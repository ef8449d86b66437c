import TypedClient.Emit.Access
import TypedClient.Proofs.Expansion.Places
import TypedClient.Proofs.Linking.Names
import TypedClient.Proofs.Script.Expressions
/-!
# Accessors — the text that unwraps a body, read back and evaluated

The text of an accessor reads as the expression that it was printed from (`Access.readsAs`), and the value of this comes to what
the steps lead to, one after the other (`value?_of_follow?`).  The parameters of the functions in it are numbered by how deep
they are, so that no function takes a name from another around it (`namesOwn_ofSteps`).
-/
namespace TypedClient

/-! ## What steps lead to -/

namespace Schema

/-- Whether the step goes into the items of an array. -/
def Step.isItems : Step → Bool
  | .items _ => true
  | .property _ => false

/-- **What steps lead to**: a step to a property selects that field of a mapping, and behind a step into items the other steps
are taken from every element of a list. -/
def follow? : List Step → Node → Option Node
  | [], v => some v
  | .property name :: rest, v => (v.get? name).bind (follow? rest)
  | .items _ :: rest, .list _ values => (values.mapM (follow? rest)).map (.list none)
  | .items _ :: _, _ => none

theorem follow?_items {segment : String} {rest : List Step} {v w : Node} : follow? (.items segment :: rest) v = some w ↔
    ∃ path values ws, v = .list path values ∧ values.mapM (follow? rest) = some ws ∧ w = .list none ws := by
  cases v with
  | list path values =>
    constructor
    · intro h
      obtain ⟨ws, hws, rfl⟩ := Option.map_eq_some_iff.1 h
      exact ⟨path, values, ws, rfl, hws, rfl⟩
    · rintro ⟨_, _, ws, h, hws, rfl⟩
      cases h
      rw [follow?, hws]
      rfl
  | _ => simp [follow?]

end Schema

namespace Node

/-- Whether a value has no canonical paths, as no value outside of the expansion of references has any. -/
def Unmarked (node : Node) : Prop := node.everywhere (·.path?.isNone) = true

instance (node : Node) : Decidable node.Unmarked := inferInstanceAs (Decidable (_ = true))

variable {v x : Node}

theorem Unmarked.field {key : String} (h : v.Unmarked) (hx : v.get? key = some x) : x.Unmarked := by
  cases v with
  | map path entries => exact everywhere_below _ _ h (.value (mem_of_lookup key x entries hx))
  | _ => cases hx

theorem Unmarked.list {path : Option String} {values : List Node} (h : (Node.list path values).Unmarked) :
    path = none ∧ ∀ x ∈ values, x.Unmarked := by
  have hpath : path.isNone = true := everywhere_self _ h
  exact ⟨Option.isNone_iff_eq_none.1 hpath, fun x hx => everywhere_below _ x h (.item hx)⟩

end Node

/-- What comes to a result for an element comes to the same one by another way, so for a list. -/
theorem mapM_mono {α β : Type} {f g : α → Option β} : ∀ {xs : List α} {ys : List β},
    (∀ x ∈ xs, ∀ y, f x = some y → g x = some y) → xs.mapM f = some ys → xs.mapM g = some ys
  | [], _, _, h => h
  | x :: xs, ys, hfg, h => by
    simp only [List.mapM_cons, bind, Option.bind_eq_some_iff, pure, Option.some.injEq] at h ⊢
    obtain ⟨y, hy, more, hmore, rfl⟩ := h
    exact ⟨y, hfg x List.mem_cons_self y hy, more, mapM_mono (fun x hx => hfg x (List.mem_cons_of_mem _ hx)) hmore, rfl⟩

theorem mapM_some {α : Type} (xs : List α) : xs.mapM some = some xs := by
  have h : xs.mapM some = some (xs.map id) := List.mapM_pure
  rw [h, List.map_id]

open Schema (Step follow?)
open Script (Expr ReadsAs isName)

namespace Emit

/-- **The value of an accessor** where names have values: a field of a mapping, and for a map the values of its body with each
element of a list in turn. -/
def Access.value? (named : String → Option Node) : Access → Option Node
  | .named name => named name
  | .field base key => (base.value? named).bind (·.get? key)
  | .mapped base item body =>
    match base.value? named with
    | some (.list _ values) =>
      (values.mapM fun x => body.value? fun name => if name = item then some x else named name).map (.list none)
    | _ => none

/-! ## Reading it -/

/-- Whether the names in an expression are such as its text can have: the body of a response, and names of elements. -/
def Access.Spelled : Access → Prop
  | .named name => name = "res.data" ∨ isName name.toList = true
  | .field base _ => base.Spelled
  | .mapped base item body => base.Spelled ∧ (isName item.toList = true ∧ item ≠ "res") ∧ body.Spelled

/-- **The expression that the text says.** -/
def Access.expr : Access → Expr
  | .named name => if name = "res.data" then .member (.name "res") "data" else .name name
  | .field base key => .index base.expr (.text key)
  | .mapped base item body => .call (.member base.expr "map") (.function item body.expr)

/-- **The text reads as the expression.** -/
theorem Access.readsAs : ∀ {a : Access}, a.Spelled → ReadsAs a.text a.expr
  | .named name, h => by
    rw [text, expr]
    split
    · rename_i hname
      subst hname
      exact (ReadsAs.name (x := "res") (by decide)).member (x := "data") (by decide)
    · rename_i hname
      exact .name (h.resolve_left hname)
  | .field base key, h => (Access.readsAs (a := base) h).index
  | .mapped base item body, ⟨hbase, hitem, hbody⟩ => (Access.readsAs hbase).map hitem.1 (Access.readsAs hbody)

/-- The names as an accessor has them: the body of a response is a name of its own. -/
def asNamed (named : String → Option Node) (name : String) : Option Node :=
  if name = "res.data" then (named "res").bind (·.get? "data") else named name

theorem asNamed_bound {item : String} (h : isName item.toList = true ∧ item ≠ "res") (x : Node) :
    asNamed (fun name => if name = item then some x else named name) =
      fun name => if name = item then some x else asNamed named name := by
  have hdata : "res.data" ≠ item := by
    rintro rfl
    exact absurd h.1 (by decide)
  funext name
  by_cases hname : name = "res.data"
  · subst hname
    simp [asNamed, hdata, Ne.symm h.2]
  · simp [asNamed, hname]

/-- **The expression and the accessor have the same value.** -/
theorem Access.value?_expr : ∀ {a : Access} {known : String → Option Node}, a.Spelled →
    a.expr.value? known = a.value? (asNamed known)
  | .named name, known, _ => by
    rw [expr, value?, asNamed]
    split <;> rfl
  | .field base key, known, h => by
    rw [expr, Expr.value?, value?, value?_expr (a := base) h, Expr.value?]
    cases base.value? (asNamed known) <;> rfl
  | .mapped base item body, known, ⟨hbase, hitem, hbody⟩ => by
    rw [expr, Expr.value?, if_pos rfl, value?, value?_expr hbase]
    have hbodies : ∀ x, body.expr.value? (fun name => if name = item then some x else known name) =
        body.value? fun name => if name = item then some x else asNamed known name := fun x => by
      rw [value?_expr hbody, asNamed_bound hitem]
    cases base.value? (asNamed known) with
    | none => rfl
    | some v =>
      cases v with
      | list path values => simp only [hbodies]
      | _ => rfl

/-! ## The names of elements -/

theorem itemName_succ (depth : Nat) : Access.itemName (depth + 1) = "item" ++ toString (depth + 2) :=
  if_neg (Nat.succ_ne_zero depth)

theorem itemName_injective : Function.Injective Access.itemName :=
  Scope.numbered_injective "item" "" rfl fun n => by rw [itemName_succ, String.append_empty]

theorem isName_itemName (depth : Nat) : isName (Access.itemName depth).toList = true ∧ Access.itemName depth ≠ "res" := by
  cases depth with
  | zero => exact ⟨by decide, by decide⟩
  | succ depth =>
    have hall : ∀ c ∈ (toString (depth + 2)).toList, Script.isNameChar c = true := fun c hc => by
      simp [Script.isNameChar, Naming.plain_toString (depth + 2) c hc]
    rw [itemName_succ]
    constructor
    · rw [String.toList_append]
      change (Script.isNameStart 'i' && (['t', 'e', 'm'] ++ (toString (depth + 2)).toList).all Script.isNameChar) = true
      rw [List.all_append, List.all_eq_true.2 hall]
      decide
    · intro h
      have hlength := congrArg (·.toList.length) h
      simp at hlength

theorem spelled_ofSteps : ∀ (steps : List Step) (base : Access) (depth : Nat), base.Spelled →
    (Access.ofSteps base steps depth).Spelled
  | [], _, _, h => h
  | .property name :: rest, base, depth, h => spelled_ofSteps rest (.field base name) depth h
  | .items _ :: rest, base, depth, h => by
    rw [Access.ofSteps]
    split
    · exact h
    · exact ⟨h, isName_itemName depth, spelled_ofSteps rest _ _ (.inr (isName_itemName depth).1)⟩

/-- **No function takes a name from another around it**, and its body begins with its own, if the names of the elements that are
still to come are all new. -/
theorem namesOwn_ofSteps : ∀ (steps : List Step) (base : Access) (depth : Nat) {own : String} {outer : List String},
    base.expr.NamesOwn own outer → (∀ n, depth ≤ n → Access.itemName n ∉ own :: outer) →
    (Access.ofSteps base steps depth).expr.NamesOwn own outer
  | [], _, _, _, _, h, _ => h
  | .property name :: rest, base, depth, _, _, h, hnew =>
    namesOwn_ofSteps rest (.field base name) depth ⟨h, trivial⟩ hnew
  | .items _ :: rest, base, depth, own, outer, h, hnew => by
    rw [Access.ofSteps]
    split
    · exact h
    · refine ⟨h, hnew depth (Nat.le_refl _), namesOwn_ofSteps rest _ _ ?_ fun n hn => ?_⟩
      · have hdata : Access.itemName depth ≠ "res.data" := fun hdata =>
          absurd (hdata ▸ (isName_itemName depth).1) (by decide)
        rw [Access.expr, if_neg hdata]
        rfl
      · refine List.not_mem_cons_of_ne_of_not_mem (fun hsame => ?_) (hnew n (by omega))
        have := itemName_injective hsame
        omega

/-! ## Its value -/

/-- **The value of an accessor is what the steps lead to.** -/
theorem value?_of_follow? : ∀ (steps : List Step) (base : Access) (depth : Nat) {known : String → Option Node} {v w : Node},
    v.Unmarked → base.value? known = some v → follow? steps v = some w →
    (Access.ofSteps base steps depth).value? known = some w
  | [], _, _, _, _, _, _, hbase, h => by
    cases h
    exact hbase
  | .property name :: rest, base, depth, known, v, w, hv, hbase, h => by
    obtain ⟨x, hx, hrest⟩ := Option.bind_eq_some_iff.1 h
    have hfield : (Access.field base name).value? known = some x := by
      rw [Access.value?, hbase]
      exact hx
    exact value?_of_follow? rest (.field base name) depth (hv.field hx) hfield hrest
  | .items _ :: rest, base, depth, known, v, w, hv, hbase, h => by
    obtain ⟨path, values, ws, rfl, hws, rfl⟩ := Schema.follow?_items.1 h
    obtain ⟨rfl, hvalues⟩ := hv.list
    have helements : values.mapM (fun x => (Access.ofSteps (.named (Access.itemName depth)) rest (depth + 1)).value?
        fun name => if name = Access.itemName depth then some x else known name) = some ws :=
      mapM_mono (fun x hx y hy => value?_of_follow? rest _ _ (hvalues x hx) (by rw [Access.value?, if_pos rfl]) hy) hws
    rw [Access.ofSteps]
    split
    · -- nothing is left to do with the elements: they are what the steps lead to
      rename_i hbody
      simp only [hbody, Access.value?, if_true] at helements
      cases (mapM_some values).symm.trans helements
      exact hbase
    · rw [Access.value?, hbase]
      simp only [helements, Option.map_some]

/-! ## Steps into items at the end -/

theorem ofSteps_items : ∀ {run : List Step}, (∀ step ∈ run, step.isItems = true) → ∀ (base : Access) (depth : Nat),
    Access.ofSteps base run depth = base
  | [], _, _, _ => rfl
  | .property name :: rest, h, _, _ => absurd (h _ List.mem_cons_self) Bool.false_ne_true
  | .items _ :: rest, h, base, depth => by
    rw [Access.ofSteps, ofSteps_items (fun step hm => h step (List.mem_cons_of_mem _ hm)), if_pos rfl]

/-- **Steps into items at the end change nothing** in the expression. -/
theorem ofSteps_append {run : List Step} (hrun : ∀ step ∈ run, step.isItems = true) :
    ∀ (steps : List Step) (base : Access) (depth : Nat),
      Access.ofSteps base (steps ++ run) depth = Access.ofSteps base steps depth
  | [], base, depth => ofSteps_items hrun base depth
  | .property name :: rest, base, depth => ofSteps_append hrun rest (.field base name) depth
  | .items _ :: rest, base, depth => by
    rw [List.cons_append, Access.ofSteps, Access.ofSteps, ofSteps_append hrun rest]

/-- A value is what steps into items alone lead to. -/
theorem follow?_run : ∀ {run : List Step} {v w : Node}, (∀ step ∈ run, step.isItems = true) → v.Unmarked →
    follow? run v = some w → w = v
  | [], _, _, _, _, h => by
    cases h
    rfl
  | .property _ :: _, _, _, hrun, _, _ => absurd (hrun _ List.mem_cons_self) Bool.false_ne_true
  | .items _ :: rest, v, w, hrun, hv, h => by
    obtain ⟨path, values, ws, rfl, hws, rfl⟩ := Schema.follow?_items.1 h
    obtain ⟨rfl, hvalues⟩ := hv.list
    have hsame : values.mapM some = some ws := by
      refine mapM_mono (fun x hx y hy => ?_) hws
      rw [follow?_run (fun step hm => hrun step (List.mem_cons_of_mem _ hm)) (hvalues x hx) hy]
    cases (mapM_some values).symm.trans hsame
    rfl

/-- **Steps into items at the end change nothing** in what the steps lead to. -/
theorem follow?_append {run : List Step} (hrun : ∀ step ∈ run, step.isItems = true) : ∀ {steps : List Step} {v w : Node},
    v.Unmarked → follow? (steps ++ run) v = some w → follow? steps v = some w
  | [], v, w, hv, h => by
    rw [follow?_run hrun hv h]
    rfl
  | .property name :: rest, v, w, hv, h => by
    obtain ⟨x, hx, hrest⟩ := Option.bind_eq_some_iff.1 h
    exact Option.bind_eq_some_iff.2 ⟨x, hx, follow?_append hrun (hv.field hx) hrest⟩
  | .items segment :: rest, v, w, hv, h => by
    obtain ⟨path, values, ws, rfl, hws, rfl⟩ := Schema.follow?_items.1 h
    exact Schema.follow?_items.2 ⟨path, values, ws, rfl,
      mapM_mono (fun x hx y hy => follow?_append hrun (hv.list.2 x hx) hy) hws, rfl⟩

/-! ## The accessor of an unwrapping -/

theorem spelled_accessor (t : Unwrapping) : t.accessor.Spelled :=
  spelled_ofSteps t.steps _ _ (.inl rfl)

theorem read?_accessor (t : Unwrapping) : Script.read? t.accessor.text = some t.accessor.expr :=
  Script.read?_of_readsAs (Access.readsAs (spelled_accessor t))

/-- **The text that unwraps a body comes to what the steps lead to.**  It reads as an expression that has, wherever the steps lead
from the body to a value, just this value.  A name in it is always that of the inmost function around it, and no two functions
around one another share one.  Steps into items at the end change neither the text nor what the steps lead to. -/
theorem accessor_evaluated (t : Unwrapping) : ∃ e, Script.read? t.accessor.text = some e ∧
    (∀ (known : String → Option Node) (v w : Node), (known "res").bind (·.get? "data") = some v → v.Unmarked →
      follow? t.steps v = some w → e.value? known = some w) ∧
    e.NamesOwn "res" [] ∧
    ∀ (t' : Unwrapping) (run : List Step), (∀ step ∈ run, step.isItems = true) → t'.steps = t.steps ++ run →
      t'.accessor.text = t.accessor.text ∧
      ∀ v w : Node, v.Unmarked → follow? t'.steps v = some w → follow? t.steps v = some w := by
  refine ⟨t.accessor.expr, read?_accessor t, ?_, ?_, ?_⟩
  · intro known v w hbody hv hsteps
    rw [Access.value?_expr (spelled_accessor t)]
    exact value?_of_follow? t.steps _ _ hv hbody hsteps
  · refine namesOwn_ofSteps t.steps _ _ rfl fun n _ => ?_
    simpa using (isName_itemName n).2
  · intro t' run hrun hsteps
    constructor
    · rw [Unwrapping.accessor, hsteps, ofSteps_append hrun]
      rfl
    · rw [hsteps]
      exact fun v w hv h => follow?_append hrun hv h

/-- The prices of all parts of all things, under names that need quotes and escapes. -/
def oddPrices : Unwrapping where
  statusCode := "200"
  contentType := "application/json"
  propertyPath := "\"things\"\n.each.\\parts.each.\x07price.each"
  steps := [.property "\"things\"\n", .items "each", .property "\\parts", .items "each", .property "\x07price", .items "each"]
  shadowed := []

/-- Two things, the second one without parts. -/
def oddThings : Node :=
  let part (prices : List Node) : Node := .map none [("\x07price", .list none prices)]
  .map none [("\"things\"\n", .list none [.map none [("\\parts", .list none [part [.int 1, .int 2], part []])],
    .map none [("\\parts", .list none [])]])]

theorem oddPrices_evaluated : ∃ e, Script.read? oddPrices.accessor.text = some e ∧ e.NamesOwn "res" [] ∧
    e.value? (fun name => if name = "res" then some (.map none [("data", oddThings)]) else none) =
      some (.list none [.list none [.list none [.int 1, .int 2], .list none []], .list none []]) := by
  obtain ⟨e, hread, hvalue, hown, -⟩ := accessor_evaluated oddPrices
  exact ⟨e, hread, hown, hvalue _ oddThings _ rfl (by decide) rfl⟩

end Emit
end TypedClient
