import TypedClient.Proofs.Making.Partition
import TypedClient.Proofs.Naming.Sanitizing
/-!
# Members — what the methods of a class hide

A method of an API class hides another one of its name, and what its class has from the client.  A name made from path and
request method is that of no member of the client (`derived_not_member`), a declared one is if it has such a name between
characters that stand for nothing.  So the methods of a class hide nothing exactly if no operation declares a member, and no
two of its operations are named from texts of one core (`methods_hide_nothing_iff`).
-/
namespace TypedClient

/-! ## The members of the client -/

namespace Emit

/-- The member that a line of a class declares: behind two blanks, and behind `async` where it is a method that waits. -/
def declaredMember? (line : String) : Option String :=
  match line.toList with
  | ' ' :: ' ' :: rest =>
    let declaration := if "async ".toList.isPrefixOf rest then rest.drop "async ".length else rest
    match declaration.takeWhile Naming.isIdentifierChar with
    | [] => none
    | name => some (String.ofList name)
  | _ => none

/-- **The members of the client**, as its class declares them. -/
def clientMembers : List String :=
  (clientLines.dropWhile (· != "export class Client \x7b")).filterMap declaredMember?

theorem clientMembers_eq : clientMembers = ["accessToken", "headers", "parent", "path", "constructor", "getUrl",
    "setAccessToken", "getAccessToken", "getHeaders", "request"] := by
  decide +kernel

theorem standing_of_mem_clientMembers {member : String} (h : member ∈ clientMembers) : Naming.Standing member := by
  have hall : ∀ member ∈ clientMembers, Naming.Standing member := by
    rw [clientMembers_eq]
    decide
  exact hall member h

end Emit

/-! ## The names of operations -/

namespace Operation

variable {spec : Spec} {document : Node}

/-- The name that an operation declares for its method. -/
def Spec.declared? (spec : Spec) : Option String :=
  (trimmedAt? "operationId" spec.operation).orElse fun _ => trimmedAt? methodKey spec.operation

/-- The text that the method of an operation is named from: what it declares, or else its path and request method. -/
def Spec.given (spec : Spec) : String :=
  spec.declared?.getD (String.join ((Naming.segments spec.path).map Text.capitalize) ++ Text.capitalize spec.verb)

theorem Spec.name_eq (spec : Spec) : spec.name = Naming.sanitize spec.given := by
  rw [Spec.name, Spec.given, Spec.declared?]
  split
  · rename_i name hname
    rw [hname]
    rfl
  · rename_i hnone
    rw [hnone]
    rfl

theorem verb_mem_of_mem_collect (h : spec ∈ collect document) : spec.verb ∈ verbs := by
  obtain ⟨⟨path, pathItem⟩, -, hspec⟩ := List.mem_flatMap.1 h
  obtain ⟨⟨verb, operation⟩, -, hmade⟩ := List.mem_filterMap.1 hspec
  dsimp only at hmade
  split at hmade
  · rename_i hverb
    cases hmade
    exact List.contains_iff_mem.1 (Bool.and_eq_true_iff.1 hverb).1
  · cases hmade

/-- **A name made from path and request method is no member of the client.** -/
theorem derived_not_member (hverb : spec.verb ∈ verbs) (hnone : spec.declared? = none) : spec.name ∉ Emit.clientMembers := by
  intro hmem
  have hcore : Naming.core spec.given.toList = spec.name.toList :=
    (Emit.standing_of_mem_clientMembers hmem).sanitize_eq_iff_core.1 (spec.name_eq.symm)
  have hends : ∀ verb ∈ verbs, (Text.capitalize verb).toList ≠ [] ∧
      (Text.capitalize verb).toList.any Naming.isFiller = false ∧
      ∀ member ∈ Emit.clientMembers, ¬ (Text.capitalize verb).toList <:+ member.toList := by
    rw [Emit.clientMembers_eq]
    decide
  obtain ⟨hne, hletters, hmembers⟩ := hends spec.verb hverb
  refine hmembers spec.name hmem ?_
  rw [← hcore, Spec.given, hnone, Option.getD_none, String.toList_append]
  exact Naming.suffix_core hne (fun c hc => Bool.eq_false_iff.2 (List.any_eq_false.1 hletters c hc)) _

/-- **A method has the name of a member** if its operation declares that name, whatever stands for nothing around it. -/
theorem name_mem_clientMembers_iff (hverb : spec.verb ∈ verbs) :
    spec.name ∈ Emit.clientMembers ↔ ∃ text, spec.declared? = some text ∧ Naming.bare text ∈ Emit.clientMembers := by
  cases hdeclared : spec.declared? with
  | none => exact iff_of_false (derived_not_member hverb hdeclared) fun ⟨_, h, _⟩ => nomatch h
  | some text =>
    have hname : spec.name = Naming.sanitize text := by rw [Spec.name_eq, Spec.given, hdeclared, Option.getD_some]
    constructor
    · intro hmem
      have hbare := (Naming.sanitize_eq_iff_bare (Emit.standing_of_mem_clientMembers hmem)).1 hname.symm
      exact ⟨text, rfl, by rw [hbare]; exact hmem⟩
    · rintro ⟨text', heq, hmem⟩
      cases heq
      have hsanitized : Naming.sanitize text = Naming.bare text := by
        rw [Naming.sanitize_eq_iff_bare (Emit.standing_of_mem_clientMembers hmem)]
      rw [hname, hsanitized]
      exact hmem

/-- **When the operations of a class are named apart**: no two from texts of one core, and none by a member of the client. -/
structure NamedApart (specs : List Spec) : Prop where
  cores : specs.Pairwise fun a b => Naming.core a.given.toList ≠ Naming.core b.given.toList
  members : ∀ spec ∈ specs, ∀ text, spec.declared? = some text → Naming.bare text ∉ Emit.clientMembers

end Operation

/-- **Whether the methods of a class hide nothing**: neither one another nor a member of the client. -/
structure Emit.HideNothing (methods : List Emit.Method) : Prop where
  nodup : (methods.map (·.name)).Nodup
  members : ∀ m ∈ methods, m.name ∉ clientMembers

namespace Making

open Codegen (Session)
open Operation (Spec collect NamedApart)

variable {settings : Settings} {document : Node}

theorem hideNothing_iff {specs : List Spec} {methods : List Emit.Method} (hverbs : ∀ spec ∈ specs, spec.verb ∈ Operation.verbs)
    (hnames : methods.map (·.name) = specs.map Spec.name) : Emit.HideNothing methods ↔ NamedApart specs := by
  have hnodup : (specs.map Spec.name).Nodup ↔
      specs.Pairwise fun a b => Naming.core a.given.toList ≠ Naming.core b.given.toList := by
    rw [List.Nodup, List.pairwise_map]
    refine iff_of_eq (congrArg (List.Pairwise · specs) ?_)
    funext a b
    rw [Spec.name_eq, Spec.name_eq, ne_eq, Naming.sanitize_eq_iff]
  have hmembers : (∀ m ∈ methods, m.name ∉ Emit.clientMembers) ↔ ∀ spec ∈ specs, spec.name ∉ Emit.clientMembers := by
    rw [← List.forall_mem_map (f := fun m : Emit.Method => m.name) (P := (· ∉ Emit.clientMembers)), hnames, List.forall_mem_map]
  constructor
  · intro h
    refine ⟨hnodup.1 (hnames ▸ h.nodup), fun spec hspec text htext hmem => ?_⟩
    exact hmembers.1 h.members spec hspec ((Operation.name_mem_clientMembers_iff (hverbs spec hspec)).2 ⟨text, htext, hmem⟩)
  · intro h
    refine ⟨hnames ▸ hnodup.2 h.cores, hmembers.2 fun spec hspec hmem => ?_⟩
    obtain ⟨text, htext, hbare⟩ := (Operation.name_mem_clientMembers_iff (hverbs spec hspec)).1 hmem
    exact h.members spec hspec text htext hbare

/-- What is shown of the methods of a class by a run. -/
structure ShownMethods (files : List Emit.File) (group : String × List Spec) (m : Session) : Prop where
  apiName : m.draft.apiName = some group.1
  /-- The methods are named for the operations of the class, in their order. -/
  names : m.draft.methods.map (·.name) = group.2.map Spec.name
  /-- They are what the class in the file of the module consists of. -/
  file : ∃ file ∈ files, m.file = .ok file ∧ ShowsClass group.1 m file
  /-- They hide nothing exactly if the operations are named apart. -/
  hideNothing_iff : Emit.HideNothing m.draft.methods ↔ NamedApart group.2

/-- **The methods of the classes hide nothing exactly if their operations are named apart.** -/
theorem methods_hide_nothing_iff {values : List (String × Node)} (hs : Settings.ofValues values = .ok settings)
    (document : Node) (hok : (generate document settings).failure = none) :
    ∃ definitions apis, (generate document settings).modules = definitions :: apis ∧ definitions.draft.methods = [] ∧
      List.Forall₂ (ShownMethods (generate document settings).files)
        (Operation.group document settings.defaultApiName) apis := by
  have hdotless : ∀ entry ∈ Operation.group document settings.defaultApiName, Dotless entry.1 :=
    Operation.dotless_group (Settings.dotless_defaultApiName hs)
  obtain ⟨-, hwhole⟩ := generate_free settings document (fun _ => True) (DefinitionsModule settings)
    (fun group m => m.draft.apiName = some group.1 ∧ m.draft.filename = settings.apiModule group.1 ∧
      m.draft.methods.map (·.name) = group.2.map Spec.name)
    ((definitionsModule_comes settings _).mono fun _ _ h => ⟨h.1, h.2, trivial⟩)
    fun className specs shared hmem hready _ =>
      (methods_comes Emit.Method.name Spec.name (fun _ _ _ => rfl) hready (hdotless _ hmem) specs).mono
        fun _ _ h => ⟨h.1, h.2, trivial⟩
  obtain ⟨-, definitions, apis, file, fs, index, hmodules, ⟨-, -, hempty⟩, hmade, -, hprinted, hfiles, -⟩ := hwhole hok
  refine ⟨definitions, apis, hmodules, hempty, ?_⟩
  have hgroups : ∀ group ∈ Operation.group document settings.defaultApiName,
      group.1 ≠ "" ∧ ∀ spec ∈ group.2, spec.verb ∈ Operation.verbs := by
    rw [Operation.group_eq, List.forall_mem_map]
    intro name hname
    obtain ⟨spec, -, rfl⟩ := List.mem_map.1 (mem_dropRepeats.1 hname)
    exact ⟨Operation.apiName_ne_empty (Settings.defaultApiName_ne_empty hs),
      fun spec hspec => Operation.verb_mem_of_mem_collect (List.mem_filter.1 hspec).1⟩
  have hshown : ∀ m ∈ apis, ∃ file ∈ (generate document settings).files, m.file = .ok file := by
    intro m hm
    obtain ⟨file, hfile, hm⟩ := (exists_of_forall₂ hprinted).1 m hm
    exact ⟨file, by rw [hfiles]; simp [hfile], hm⟩
  refine List.forall₂_iff_zip.2 ⟨hmade.length_eq, fun {group m} hzip => ?_⟩
  obtain ⟨hname, -, hnames⟩ := (List.forall₂_iff_zip.1 hmade).2 hzip
  obtain ⟨hgroup, hm⟩ := List.of_mem_zip hzip
  obtain ⟨hne, hverbs⟩ := hgroups group hgroup
  obtain ⟨file, hfile, hprinted⟩ := hshown m hm
  exact ⟨hname, hnames, ⟨file, hfile, hprinted, showsClass_of_file hprinted hname hne⟩, hideNothing_iff hverbs hnames⟩

theorem petShop_hides_nothing : ∃ definitions apis, (generate petShop Linking.petSettings).modules = definitions :: apis ∧
    definitions.draft.methods = [] ∧ List.Forall₂ (ShownMethods (generate petShop Linking.petSettings).files)
      (Operation.group petShop Linking.petSettings.defaultApiName) apis :=
  methods_hide_nothing_iff Linking.ofValues_petValues petShop (by decide +kernel)

/-- Three calls, of which one is called as the client calls what sends requests, and two alike but for a sign. -/
def callShop : Node :=
  let call (name : String) : Node := .map none [("operationId", .str name), ("responses", .map none [])]
  .map (some "#") [("paths", .map none [("/calls", .map none [("post", call "request")]),
    ("/things", .map none [("get", call "list-things"), ("put", call "list_things")])])]

/-- **Two methods of one name, and one that hides what it calls itself**: the run ends without failure. -/
theorem callShop_hides : (generate callShop Linking.petSettings).failure = none ∧
    (generate callShop Linking.petSettings).modules.map (·.draft.methods.map (·.name)) =
      [[], ["request", "list_things", "list_things"]] ∧
    "request" ∈ Emit.clientMembers := by
  decide +kernel

end Making
end TypedClient
