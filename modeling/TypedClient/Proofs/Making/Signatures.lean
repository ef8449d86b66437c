import TypedClient.Proofs.Making.Parameters
/-!
# Signatures — the arguments of a method, as it is called

Every argument has an identifier for a name that is no reserved word, and not the name of another argument or of the response.
It may be left out if neither it nor any behind it has to be given; one that stands in the path always has to be.
-/
namespace TypedClient
namespace Operation

open Codegen (Session)
open Emit (Argument Method)

/-! ## What may be left out -/

/-- Whether the arguments that may be left out are those of the longest run at the end of which none has to be given. -/
def Trailing (arguments : List Argument) : Prop :=
  ∀ before a after, arguments = before ++ a :: after → (a.isOptional = true ↔ ∀ b ∈ a :: after, b.required = false)

/-- **None that has to be given follows one that may be left out.** -/
theorem Trailing.pairwise : ∀ {arguments : List Argument}, Trailing arguments →
    arguments.Pairwise fun a b => a.isOptional = true → b.required = false
  | [], _ => .nil
  | a :: rest, h => by
    refine List.pairwise_cons.2 ⟨fun b hb ha => ?_, Trailing.pairwise fun before b after hrest => ?_⟩
    · exact (h [] a rest rfl).1 ha b (List.mem_cons_of_mem _ hb)
    · exact h (a :: before) b after (congrArg (a :: ·) hrest)

theorem forall_mem_markOptional {P : Argument → Prop} (hP : ∀ a flag, P { a with isOptional := flag } ↔ P a) :
    ∀ {arguments : List Argument}, (∀ a ∈ markOptional arguments, P a) ↔ ∀ a ∈ arguments, P a
  | [] => Iff.rfl
  | a :: rest => by
    rw [markOptional, List.forall_mem_cons, List.forall_mem_cons, hP, forall_mem_markOptional hP]

theorem trailing_markOptional : ∀ {arguments : List Argument}, (∀ a ∈ arguments, a.isOptional = false) →
    Trailing (markOptional arguments)
  | [], _ => fun before a after h => absurd h.symm (List.append_ne_nil_of_right_ne_nil _ (List.cons_ne_nil _ _))
  | a :: rest, hplain => by
    intro before b after h
    rw [markOptional] at h
    cases before with
    | cons c before =>
      exact trailing_markOptional (fun x hx => hplain x (List.mem_cons_of_mem _ hx)) before b after (List.cons.inj h).2
    | nil =>
      obtain ⟨rfl, rfl⟩ := List.cons.inj h
      have hrest : (∀ x ∈ markOptional rest, x.required = false) ↔ ∀ x ∈ rest, x.required = false :=
        forall_mem_markOptional fun _ _ => Iff.rfl
      simp only [hplain a List.mem_cons_self, Bool.false_or, Bool.and_eq_true, Bool.not_eq_true', List.all_eq_true,
        List.forall_mem_cons, hrest]

/-! ## Signatures -/

/-- **Whether arguments make a signature.** -/
structure Signature (arguments : List Argument) : Prop where
  names : (responseName :: arguments.map (·.name)).Nodup
  proper : ∀ a ∈ arguments, Naming.Proper a.name
  trailing : Trailing arguments
  order : arguments.Pairwise fun a b => a.isOptional = true → b.required = false
  ofPath : ∀ a ∈ arguments, a.location = "path" → a.isOptional = false

/-- Which arguments have to be given: those of the path, and those of which it is said. -/
theorem required_arguments {spec : Spec} {made : Prepared} {s t : Session} (h : spec.prepare s = .ok made t) :
    (∀ a ∈ made.arguments, a.isOptional = false ∧ (a.location = "path" → a.required = true)) ∧
      made.arguments.map (·.required) =
        made.declared.map Parameter.required ++ made.body.toList.map fun _ => spec.bodyRequired := by
  obtain ⟨u₁, u₂, -, hparameters, hbody, -⟩ := prepare_eq_ok h
  have hfills := fills_argumentsOf hparameters
  have hfields := bodyArgument?_fields hbody
  refine ⟨fun a ha => ?_, ?_⟩
  · rcases List.mem_append.1 ha with ha | ha
    · obtain ⟨p, -, hp⟩ := (exists_of_forall₂ hfills).2 a ha
      refine ⟨hp.isOptional, fun hpath => ?_⟩
      rw [hp.required, Parameter.required, ← hp.location, hpath]
      rfl
    · obtain ⟨hlocation, -, hplain⟩ := hfields a ha
      exact ⟨hplain, fun hpath => absurd (hlocation.symm.trans hpath) (by decide)⟩
  · have hflags : made.parameters.map (·.required) = made.declared.map Parameter.required :=
      forall₂_map_eq (hfills.imp fun p a hp => hp.required)
    rw [Prepared.arguments, List.map_append, hflags]
    exact congrArg _ (List.map_congr_left fun a ha => (hfields a ha).2.1)

/-- **The arguments of a method make a signature**, and what they fill says which of them have to be given. -/
theorem signature_wellFormed (spec : Spec) {m : Method} {s t : Session} (h : generate spec s = .ok m t) :
    Signature m.arguments ∧ ∃ merged, spec.parameters = .ok merged ∧
      m.arguments.map (·.required) =
        merged.map Parameter.required ++ m.body?.toList.map fun _ => spec.bodyRequired := by
  obtain ⟨made, u, text, hmade, -, rfl⟩ := generate_inv h
  obtain ⟨_, _, hdeclared, -, -, -⟩ := prepare_eq_ok hmade
  obtain ⟨-, hproper, hnames⟩ := arguments_of_prepare hmade
  obtain ⟨hplain, hrequired⟩ := required_arguments hmade
  have htrailing := trailing_markOptional fun a ha => (hplain a ha).1
  refine ⟨⟨?_, (forall_mem_markOptional fun _ _ => Iff.rfl).2 hproper, htrailing, htrailing.pairwise, ?_⟩,
    made.declared, hdeclared, ?_⟩
  · exact (names_markOptional made.arguments).symm ▸ hnames
  · intro a ha hpath
    have hgiven : a.required = true :=
      (forall_mem_markOptional (P := fun a => a.location = "path" → a.required = true) fun _ _ => Iff.rfl).2
        (fun a ha => (hplain a ha).2) a ha hpath
    obtain ⟨before, after, hsplit⟩ := List.append_of_mem ha
    refine Bool.eq_false_iff.2 fun hoptional => ?_
    have hnot := (htrailing before a after hsplit).1 hoptional a List.mem_cons_self
    exact Bool.false_ne_true (hnot.symm.trans hgiven)
  · have hbody : (made.body.map (·.name)).toList.map (fun _ => spec.bodyRequired) =
        made.body.toList.map fun _ => spec.bodyRequired := by
      cases made.body <;> rfl
    exact (map_markOptional (fun _ _ => rfl) made.arguments).trans (hrequired.trans (congrArg _ hbody.symm))

/-- A thing under a path for a response, asked for by words of the language. -/
def thingNamedOddly : Spec :=
  ⟨"/things/\x7bres\x7d", "post",
    .map none [("parameters", .list none
      [.map none [("name", .str "if"), ("required", .bool true)], parameterNode "if-" "query", parameterNode "1st" "query",
        parameterNode "payload" "header"]),
      ("requestBody", .map none [("content", .map none [("application/json",
        .map none [("schema", .map none [("type", .str "string")])])])])],
    .map none [("parameters", .list none [parameterNode "res" "path"])]⟩

theorem thingNamedOddly_signature : ∃ m t, generate thingNamedOddly default = .ok m t ∧ Signature m.arguments ∧
    m.arguments.map (fun a => (a.name, a.required, a.isOptional)) =
      [("res2", true, false), ("if_", true, false), ("if_2", false, true), ("_1st", false, true),
        ("payload", false, true), ("payload2", false, true)] := by
  obtain ⟨m, t, hrun⟩ := exists_of_succeeds (r := generate thingNamedOddly default) (by decide +kernel)
  obtain ⟨hsignature, -⟩ := signature_wellFormed thingNamedOddly hrun
  have harguments : (match generate thingNamedOddly default with
      | .ok m _ => some (m.arguments.map fun a => (a.name, a.required, a.isOptional))
      | .error .. => none) = some [("res2", true, false), ("if_", true, false), ("if_2", false, true),
        ("_1st", false, true), ("payload", false, true), ("payload2", false, true)] := by
    decide +kernel
  simp only [hrun, Option.some.injEq] at harguments
  exact ⟨m, t, hrun, hsignature, harguments⟩

end Operation
end TypedClient
