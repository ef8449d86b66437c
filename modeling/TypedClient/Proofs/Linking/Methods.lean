import TypedClient.Proofs.Linking.Paths
/-!
# Methods — operations become methods by rows of acts

The arguments and the return type of a method are made of types of schemas, so that their names were handed out when the
method is added.  The typedefs for inline schemas are named for the operation, by names without a dot.
-/
namespace TypedClient
namespace Linking

open Codegen (Session Gen)
open Emit (TypeExpr Argument Method Unwrapping)

variable {known : List String}

/-- The names in the types of arguments. -/
def argumentNames (arguments : List Argument) : List String := arguments.flatMap (·.type.names)

/-! ## Arguments -/

section Arguments

variable {operationName : String}

/-- The name of a type that an operation needs. -/
theorem dotless_operationType (hname : Naming.Plain operationName) {tail : String} (htail : Naming.Plain tail) :
    ∀ n, some (Text.capitalize operationName ++ tail) = some n → Dotless n := by
  rintro n ⟨⟩
  exact ((Naming.plain_capitalize hname).append htail).dotless

theorem follows_argumentOf (hname : Naming.Plain operationName) (used : List String) (p : Operation.Parameter) :
    Follows known (Operation.argumentOf operationName used p) fun a => a.type.names := by
  have htype : Naming.Plain (Naming.typeName p.name ++ "Parameter") := (Naming.plain_sanitize _).append (by decide)
  have hdotless := dotless_operationType hname htype
  rw [← String.append_assoc] at hdotless
  unfold Operation.argumentOf
  refine (follows_warnIf ?_).bind fun _ => (follows_resolveType _ hdotless).bind fun type => .pure (List.subset_append_left _ _)
  rw [String.append_assoc, String.append_assoc, String.append_assoc, isReferral_append _ (by decide)]
  decide

theorem follows_argumentsOf (hname : Naming.Plain operationName) : ∀ (used : List String)
    (ps : List Operation.Parameter) {known : List String},
    Follows known (Operation.argumentsOf operationName used ps) argumentNames
  | used, [], known => .pure (List.nil_subset _)
  | used, p :: rest, known => by
    unfold Operation.argumentsOf
    refine (follows_argumentOf hname used p).bind fun a => (follows_argumentsOf hname _ rest).bind fun arguments => .pure ?_
    rw [argumentNames, List.flatMap_cons]
    exact List.append_subset.2 ⟨List.subset_append_of_subset_right _ (List.subset_append_left _ _),
      List.subset_append_left _ _⟩

theorem follows_bodyArgument? (hname : Naming.Plain operationName) (operation : Node) (used : List String) :
    Follows known (Operation.bodyArgument? operation operationName used) fun a => argumentNames a.toList := by
  unfold Operation.bodyArgument?
  dsimp only
  split
  · exact .pure (List.nil_subset _)
  · refine (follows_resolveType _ (dotless_operationType hname (by decide))).bind fun type => .pure ?_
    exact List.append_subset.2 ⟨List.subset_append_left _ _, List.nil_subset _⟩

theorem argumentNames_markOptional : ∀ arguments : List Argument,
    argumentNames (Operation.markOptional arguments) = argumentNames arguments
  | [] => rfl
  | a :: rest => by
    rw [Operation.markOptional, argumentNames, List.flatMap_cons]
    exact congrArg (a.type.names ++ ·) (argumentNames_markOptional rest)

/-! ## Responses -/

/-- The names in the types of bodies. -/
def foundNames (found : List (TypeExpr × Option Unwrapping)) : List String := found.flatMap (·.1.names)

theorem foundNames_eq (found : List (TypeExpr × Option Unwrapping)) :
    TypeExpr.namesAll (found.map (·.1)) = foundNames found := by
  rw [namesAll_eq, List.flatMap_map]
  rfl

theorem follows_bodyType (hname : Naming.Plain operationName) (status : String) (declared : List String)
    (several : Bool) (contentType : String) (media : Node) :
    Follows known (Operation.bodyType operationName status declared several contentType media) fun b => b.1.names := by
  have hlabel : Naming.Plain (Naming.statusLabel status ++ (if several then Naming.mediaLabel contentType else "")
      ++ "Response") := by
    refine ((Naming.plain_statusLabel status).append ?_).append (by decide)
    split
    · exact Naming.plain_mediaLabel contentType
    · decide
  have hdotless := dotless_operationType hname hlabel
  rw [← String.append_assoc] at hdotless
  unfold Operation.bodyType
  refine (follows_warnIf ?_).bind fun _ => ?_
  · rw [String.append_assoc, String.append_assoc, String.append_assoc, String.append_assoc, String.append_assoc,
      isReferral_append _ (by decide)]
    decide
  · split
    · exact .throw nofun
    · exact (follows_resolveType _ hdotless).bind fun type => .pure (List.subset_append_left _ _)

theorem follows_bodyTypes (hname : Naming.Plain operationName) (status : String) (declared : List String)
    (several : Bool) : ∀ (content : List (String × Node)) {known : List String},
    Follows known (Operation.bodyTypes operationName status declared several content) foundNames
  | [], known => .pure (List.nil_subset _)
  | (contentType, media) :: rest, known => by
    unfold Operation.bodyTypes
    split
    · refine (follows_bodyType hname status declared several contentType media).bind fun b =>
        (follows_bodyTypes hname status declared several rest).bind fun found => .pure ?_
      rw [foundNames, List.flatMap_cons]
      exact List.append_subset.2 ⟨List.subset_append_of_subset_right _ (List.subset_append_left _ _),
        List.subset_append_left _ _⟩
    · exact follows_bodyTypes hname status declared several rest

theorem follows_responseTypes (hname : Naming.Plain operationName) (declared : List String) :
    ∀ (responses : List (String × Node)) {known : List String},
    Follows known (Operation.responseTypes operationName declared responses) foundNames
  | [], known => .pure (List.nil_subset _)
  | (status, response) :: rest, known => by
    unfold Operation.responseTypes
    split
    · refine (follows_bodyTypes hname status declared _ _).bind fun here =>
        (follows_responseTypes hname declared rest).bind fun found => .pure ?_
      rw [foundNames, List.flatMap_append]
      exact List.append_subset.2 ⟨List.subset_append_of_subset_right _ (List.subset_append_left _ _),
        List.subset_append_left _ _⟩
    · exact follows_responseTypes hname declared rest

theorem follows_responsesOf (hname : Naming.Plain operationName) (operation : Node) :
    Follows known (Operation.responsesOf operation operationName) fun r => TypeExpr.namesAll r.types := by
  unfold Operation.responsesOf
  split
  · refine (follows_warn ?_).bind fun _ => .pure (List.nil_subset _)
    rw [String.append_assoc, isReferral_append _ (by decide)]
    decide
  · refine (follows_responseTypes hname _ _).bind fun found => .pure ?_
    rw [foundNames_eq]
    exact List.subset_append_left _ _

/-- The types kept in a union are among those it is made of. -/
theorem names_returnType (types : List TypeExpr) : (Operation.returnType types).names ⊆ TypeExpr.namesAll types := by
  have hfold : ∀ (types kept : List TypeExpr),
      types.foldl (fun kept t => if kept.any (·.text == t.text) then kept else kept ++ [t]) kept ⊆ kept ++ types := by
    intro types
    induction types with
    | nil => exact fun kept => List.subset_append_left _ _
    | cons t rest ih =>
      intro kept
      rw [List.foldl_cons]
      refine List.Subset.trans (ih _) ?_
      split
      · exact List.append_subset.2 ⟨List.subset_append_left _ _,
          List.subset_append_of_subset_right _ (List.subset_cons_self _ _)⟩
      · rw [List.append_assoc]
        exact List.Subset.refl _
  unfold Operation.returnType
  split
  · exact List.nil_subset _
  · rw [TypeExpr.names, namesAll_eq, namesAll_eq]
    intro n hn
    obtain ⟨t, ht, hn⟩ := List.mem_flatMap.1 hn
    exact List.mem_flatMap.2 ⟨t, hfold types [] ht, hn⟩

end Arguments

/-! ## Methods -/

theorem follows_addMethod {m : Method} (h : m.names ⊆ known) : Follows known (Codegen.addMethod m) fun _ => [] :=
  fun _ _ hknown => ⟨_, .single (.method m (List.Subset.trans h hknown) rfl), rfl, rfl, List.nil_subset _⟩

theorem pathExpression_error {path operationName : String} {arguments : List Argument} {e : GenerateError}
    (h : Operation.pathExpression path arguments operationName = .error e) :
    ∃ hole, e = .undeclaredParameter hole operationName := by
  unfold Operation.pathExpression at h
  split at h
  · cases h
    exact ⟨_, rfl⟩
  · split at h
    · cases h
    · cases h
      exact ⟨_, rfl⟩

/-- **An operation becomes a method by a row of acts.** -/
theorem follows_generate (spec : Operation.Spec) : Follows known (Operation.generate spec) fun _ => [] := by
  have hname := spec.plain_name
  unfold Operation.generate
  extract_lets name rest
  have hrest : ∀ declared {known : List String}, Follows known (rest declared) fun _ => [] := by
    intro declared known
    refine (follows_argumentsOf hname _ declared).bind fun parameters => (follows_bodyArgument? hname _ _).bind fun body => ?_
    dsimp only
    refine (follows_responsesOf hname _).bind fun responses => ?_
    split
    · rename_i e he
      obtain ⟨hole, rfl⟩ := pathExpression_error he
      exact .throw nofun
    · refine (follows_addMethod ?_).bind fun _ => .pure (List.nil_subset _)
      change argumentNames (Operation.markOptional (parameters ++ body.toList)) ++
        (Operation.returnType responses.types).names ⊆ _
      rw [argumentNames_markOptional, argumentNames, List.flatMap_append]
      refine List.append_subset.2 ⟨List.append_subset.2 ⟨?_, ?_⟩, ?_⟩
      · exact List.subset_append_of_subset_right _ (List.subset_append_of_subset_right _ (List.subset_append_left _ _))
      · exact List.subset_append_of_subset_right _ (List.subset_append_left _ _)
      · exact List.Subset.trans (names_returnType _) (List.subset_append_left _ _)
  split
  · rename_i declared _
    have hdeclared : Follows known (pure declared) fun _ => [] := .pure (List.nil_subset _)
    exact hdeclared.bind fun declared => hrest declared
  · rename_i e _
    have hthrow : Follows known (throw (.unwritable e) : Gen (List Operation.Parameter)) fun _ => [] := .throw nofun
    exact hthrow.bind fun declared => hrest declared

theorem follows_generateMethods : ∀ (specs : List Operation.Spec) {known : List String},
    Follows known (Generate.generateMethods specs) fun _ => []
  | [], _ => .pure (List.nil_subset _)
  | spec :: rest, _ => (follows_generate spec).bind fun _ => follows_generateMethods rest

theorem follows_generateTypedefs : ∀ (schemas : List (String × Node)) {known : List String},
    Follows known (Generate.generateTypedefs schemas) fun _ => []
  | [], known => .pure (List.nil_subset _)
  | (name, node) :: rest, known => by
    unfold Generate.generateTypedefs
    split
    · exact (follows_generateTypedef (Naming.plain_sanitize name).dotless _).bind fun _ => follows_generateTypedefs rest
    · refine (follows_warn ?_).bind fun _ => follows_generateTypedefs rest
      rw [String.append_assoc, isReferral_append _ (by decide)]
      decide

end Linking
end TypedClient
