import Mathlib.Data.List.TakeWhile
import TypedClient.Emit.Client
import TypedClient.Proofs.Linking.Names
import TypedClient.Proofs.Response.Dispatch
import TypedClient.Proofs.Script.Literals
/-!
# Media types — what a branch asks of the type of a body

A branch asks that the media type of a response is the text it is declared under, as it stands.  The client takes it from a
header: what comes before the first semicolon, without white space around it (`contentTypeOf_eq`).  So a branch is taken for
all that it is declared for exactly if it is declared under one media type without parameters (`Exact`); under one with
parameters, or under a range of media types, it is taken for none of them.
-/
namespace TypedClient
namespace Text

variable {cs : List Char}

theorem takeWhile_of_not_mem {mark : Char} (h : mark ∉ cs) : cs.takeWhile (· != mark) = cs :=
  List.takeWhile_eq_self_iff.2 fun _ hc => bne_iff_ne.2 fun heq => h (heq ▸ hc)

end Text

namespace Script

/-! ## The media type that a client reads -/

/-- Whether the language takes a character for white space, at the ends of a text. -/
def isTrimmed (c : Char) : Bool :=
  let n := c.toNat
  (9 ≤ n && n ≤ 13) || n == 0x20 || n == 0xA0 || n == 0x1680 || (0x2000 ≤ n && n ≤ 0x200A) || n == 0x2028 ||
    n == 0x2029 || n == 0x202F || n == 0x205F || n == 0x3000 || n == 0xFEFF

/-- A call on a text that gives back a part of it. -/
inductive Cut where
  /-- `.split('c')[0]`: what comes before the first such character. -/
  | before (mark : Char)
  /-- `.trim()`: what is left without white space at the ends. -/
  | ends
  deriving DecidableEq

namespace Cut

def apply (text : String) : Cut → String
  | .before mark => Text.beforeFirst mark text
  | .ends => String.ofList (Text.dropEnds isTrimmed text.toList)

/-- Reads such calls one behind the other, up to the end of the statement. -/
def readAll? : List Char → Option (List Cut)
  | [';'] => some []
  | '.' :: 's' :: 'p' :: 'l' :: 'i' :: 't' :: '(' :: '\x27' :: mark :: '\x27' :: ')' :: '[' :: '0' :: ']' :: rest =>
    (readAll? rest).map (.before mark :: ·)
  | '.' :: 't' :: 'r' :: 'i' :: 'm' :: '(' :: ')' :: rest => (readAll? rest).map (.ends :: ·)
  | _ => none

end Cut

end Script

namespace Emit

/-- The statement of the client that takes the media type of a response from a header, or from no text without one. -/
def contentTypeLine : String :=
  "    const contentType = String(res.headers['content-type'] || '').split(';')[0].trim();"

theorem contentTypeLine_mem : contentTypeLine ∈ clientLines :=
  List.mem_of_getElem? (i := 117) rfl

/-- What the statement does with the text of the header. -/
def contentTypeCuts? : Option (List Script.Cut) :=
  let taken := "    const contentType = String(res.headers['content-type'] || '')"
  if Text.startsWith contentTypeLine taken then Script.Cut.readAll? (contentTypeLine.toList.drop taken.length) else none

/-- **The media type that the client reads from a header.** -/
def contentTypeOf (header : String) : String :=
  (contentTypeCuts?.getD []).foldl Script.Cut.apply header

theorem contentTypeCuts?_eq : contentTypeCuts? = some [.before ';', .ends] := by
  decide +kernel

theorem contentTypeOf_eq (header : String) :
    contentTypeOf header = String.ofList (Text.dropEnds Script.isTrimmed (header.toList.takeWhile (· != ';'))) := by
  rw [contentTypeOf, contentTypeCuts?_eq]
  simp [Script.Cut.apply, Text.beforeFirst]

/-- **Whether a response under a media type can have a header**: one of that type, or of a type in that range. -/
inductive Covers : String → String → Prop where
  | itself (key : String) : Covers key key
  | all (type subtype : String) : Covers "*/*" (type ++ "/" ++ subtype)
  | family {type : String} (htype : type ≠ "*") (subtype : String) : Covers (type ++ "/*") (type ++ "/" ++ subtype)

/-- Whether a text is one media type: it has no parameters and no white space around it, and is no range. -/
structure Exact (key : String) : Prop where
  bare : ';' ∉ key.toList
  head : ∀ c ∈ key.toList.head?, Script.isTrimmed c = false
  last : ∀ c ∈ key.toList.getLast?, Script.isTrimmed c = false
  single : ∀ type, key ≠ type ++ "/*"

theorem contentTypeOf_eq_self_iff {key : String} : contentTypeOf key = key ↔
    ';' ∉ key.toList ∧ (∀ c ∈ key.toList.head?, Script.isTrimmed c = false) ∧
      ∀ c ∈ key.toList.getLast?, Script.isTrimmed c = false := by
  rw [contentTypeOf_eq, ← Text.dropEnds_eq_self_iff]
  constructor
  · intro h
    have hlist := congrArg String.toList h
    rw [String.toList_ofList] at hlist
    have hbare : ';' ∉ key.toList := by
      intro hmem
      rw [← hlist] at hmem
      exact absurd (List.mem_takeWhile_imp (Text.mem_of_mem_dropEnds hmem)) (by decide)
    rw [Text.takeWhile_of_not_mem hbare] at hlist
    exact ⟨hbare, hlist⟩
  · rintro ⟨hbare, hends⟩
    rw [Text.takeWhile_of_not_mem hbare, hends, String.ofList_toList]

/-- **All that is declared under a media type is read as that media type exactly if it is one.** -/
theorem forall_covers_iff_exact {key : String} :
    (∀ header, Covers key header → contentTypeOf header = key) ↔ Exact key := by
  constructor
  · intro h
    obtain ⟨hbare, hhead, hlast⟩ := contentTypeOf_eq_self_iff.1 (h key (.itself key))
    refine ⟨hbare, hhead, hlast, ?_⟩
    rintro type rfl
    by_cases htype : type = "*"
    · cases htype
      exact absurd (h _ (.all "text" "plain")) (by rw [contentTypeOf_eq]; decide +kernel)
    · -- what is read of a type in the range is the type itself
      have hread := h _ (.family htype "json")
      have hself : contentTypeOf (type ++ "/" ++ "json") = type ++ "/" ++ "json" := by
        rw [String.toList_append] at hbare hhead
        refine contentTypeOf_eq_self_iff.2 ?_
        rw [String.append_assoc, String.toList_append]
        refine ⟨?_, ?_, ?_⟩
        · rw [List.mem_append] at hbare ⊢
          exact fun hmem => hmem.elim (fun h => hbare (.inl h)) (by decide)
        · cases hlist : type.toList with
          | nil =>
            rw [List.nil_append, show ("/" ++ "json").toList.head? = some '/' by decide]
            rintro c ⟨⟩
            decide
          | cons c rest =>
            rw [hlist] at hhead
            exact hhead
        · rw [List.getLast?_append, show ("/" ++ "json").toList.getLast? = some 'n' by decide, Option.some_or]
          rintro c ⟨⟩
          decide
      have hlist := congrArg String.toList (hself.symm.trans hread)
      rw [String.append_assoc, String.toList_append, String.toList_append (s := type)] at hlist
      exact absurd (List.append_cancel_left hlist) (by decide)
  · intro h header hcovers
    cases hcovers with
    | itself => exact contentTypeOf_eq_self_iff.2 ⟨h.bare, h.head, h.last⟩
    | all type subtype => exact absurd rfl (h.single "*")
    | family htype subtype => exact absurd rfl (h.single _)

/-! ## The clause of a branch -/

theorem media_not_mem_statusClause {wanted : Bool} {code : String} {clauses : List Clause}
    (h : statusClause wanted code = .ok clauses) (key : String) : .media key ∉ clauses := by
  unfold statusClause at h
  split at h
  · split at h
    · cases h
      simp
    · cases h
  · split at h
    · cases h
      simp
    · cases h
      exact List.not_mem_nil

theorem media_not_mem_statusClauses {wanted : Bool} (key : String) : ∀ {codes : List String} {clauses : List Clause},
    statusClauses wanted codes = .ok clauses → .media key ∉ clauses
  | [], clauses, h => by
    cases h
    exact List.not_mem_nil
  | code :: rest, clauses, h => by
    rw [statusClauses] at h
    cases hcode : statusClause wanted code with
    | error e =>
      rw [hcode] at h
      cases h
    | ok own =>
      cases hrest : statusClauses wanted rest with
      | error e =>
        rw [hcode, hrest] at h
        cases h
      | ok more =>
        rw [hcode, hrest] at h
        cases h
        exact List.not_mem_append (media_not_mem_statusClause hcode key) (media_not_mem_statusClauses key hrest)

/-- **A branch has one clause about the media type**, and that asks for the one it is declared under. -/
theorem Unwrapping.media_mem_clauses_iff {t : Unwrapping} {clauses : List Clause} (h : t.clauses = .ok clauses) (key : String) :
    .media key ∈ clauses ↔ key = t.contentType := by
  unfold Unwrapping.clauses at h
  split at h
  · rename_i own others hown hothers
    cases h
    simp [media_not_mem_statusClause hown, media_not_mem_statusClauses _ hothers]
  · cases h
  · cases h

end Emit

namespace Operation

open Codegen (Session)
open Emit (Method Clause Covers Exact contentTypeOf)

/-- **When the clause about the media type holds.**  The line that takes the media type from a header is one of the client.
Every unwrapping is declared under its media type and asks for that text.  It holds for a header exactly if the client reads
the text from it; and it holds for all that the text covers exactly if the text is one media type. -/
theorem media_clause_holds {spec : Spec} {m : Method} {s t : Session} (h : generate spec s = .ok m t) :
    Emit.contentTypeLine ∈ Emit.clientLines ∧ ∀ a ∈ m.unwrappings,
      (∃ responses media, (spec.operation.get? "responses").bind Node.entries? = some responses ∧
        (a.statusCode, a.contentType, media) ∈ bodies responses) ∧
      (∀ clauses, a.clauses = .ok clauses → ∀ key, .media key ∈ clauses ↔ key = a.contentType) ∧
      (∃ literal, (Clause.media a.contentType).text = "res.contentType === " ++ literal ∧
        Script.readString? literal.toList = some (a.contentType.toList, [])) ∧
      (∀ status header, (Clause.media a.contentType).holds status (contentTypeOf header) = true ↔
        contentTypeOf header = a.contentType) ∧
      ((∀ status header, Covers a.contentType header →
        (Clause.media a.contentType).holds status (contentTypeOf header) = true) ↔ Exact a.contentType) := by
  refine ⟨Emit.contentTypeLine_mem, fun a ha => ?_⟩
  have hholds : ∀ status header, (Clause.media a.contentType).holds status (contentTypeOf header) = true ↔
      contentTypeOf header = a.contentType := fun _ _ => beq_iff_eq
  refine ⟨?_, fun clauses hclauses => a.media_mem_clauses_iff hclauses, ?_, hholds, ?_⟩
  · obtain ⟨found, u, u', hfound, hunwrappings⟩ := generate_eq_ok h
    rw [hunwrappings] at ha
    cases hresponses : (spec.operation.get? "responses").bind Node.entries? with
    | none =>
      rw [responsesOf, hresponses] at hfound
      obtain ⟨_, _, -, hfound⟩ := bind_eq_ok.1 hfound
      obtain ⟨rfl, -⟩ := pure_eq_ok.1 hfound
      exact absurd ha List.not_mem_nil
    | some responses =>
      obtain ⟨⟨key, contentType, media⟩, hbody, ha⟩ :=
        List.mem_filterMap.1 ((responsesOf_unwrappings hresponses hfound).mem_iff.1 ha)
      obtain ⟨path, target, steps, -, rfl⟩ := unwrapping?_eq_some.1 ha
      exact ⟨responses, media, rfl, hbody⟩
  · have hread := Script.readString?_quote a.contentType []
    rw [List.append_nil] at hread
    exact ⟨_, rfl, hread⟩
  · rw [← Emit.forall_covers_iff_exact]
    simp only [hholds]
    exact ⟨fun hall header => hall 200 header, fun hall status header => hall header⟩

theorem lookup_fires : ∃ m t, generate lookup default = .ok m t ∧ m.unwrappings ≠ [] ∧
    ∀ a ∈ m.unwrappings, ∀ status header, Covers a.contentType header →
      (Clause.media a.contentType).holds status (contentTypeOf header) = true := by
  obtain ⟨m, t, hrun⟩ := exists_of_succeeds (r := generate lookup default) (by decide +kernel)
  have htypes : (match generate lookup default with
      | .ok m _ => some (m.unwrappings.map (·.contentType))
      | .error .. => none) = some (List.replicate 3 "application/json") := by
    decide +kernel
  simp only [hrun, Option.some.injEq] at htypes
  have hexact : Exact "application/json" := by
    have hhead : "application/json".toList.head? = some 'a' := by decide
    have hlast : "application/json".toList.getLast? = some 'n' := by decide
    refine ⟨by decide, ?_, ?_, fun type h => ?_⟩
    · rw [hhead]
      rintro c ⟨⟩
      decide
    · rw [hlast]
      rintro c ⟨⟩
      decide
    · rw [h, String.toList_append, List.getLast?_append, show "/*".toList.getLast? = some '*' by decide,
        Option.some_or] at hlast
      exact absurd hlast (by decide)
  refine ⟨m, t, hrun, fun hnil => ?_, fun a ha => ?_⟩
  · rw [hnil] at htypes
    cases htypes
  · have htype : a.contentType = "application/json" :=
      List.eq_of_mem_replicate (htypes ▸ List.mem_map_of_mem (f := Emit.Unwrapping.contentType) ha)
    exact ((media_clause_holds hrun).2 a ha).2.2.2.2.2 (htype ▸ hexact)

/-- A name that is given as three types: one with a parameter, one in a range, and any. -/
def nameInTypes : Spec :=
  let name : Node := .map none [("schema", .map none
    [("type", .str "object"), ("properties", .map none [("name", .map none [("type", .str "string")])])])]
  ⟨"/name", "get", .map none [("responses", .map none [("200", .map none [("content", .map none
    [("application/json; charset=utf-8", name), ("application/*", name), ("*/*", name)])])])], .map none []⟩

/-- **No branch is taken for what it is declared for**, though each returns what the method is declared to return. -/
theorem nameInTypes_missed : ∃ m t, generate nameInTypes default = .ok m t ∧ m.returnType.text = "string" ∧
    m.unwrappings.map (·.contentType) = ["application/json; charset=utf-8", "application/*", "*/*"] ∧
    ∀ a ∈ m.unwrappings, ∃ header, Covers a.contentType header ∧
      ∀ status, (Clause.media a.contentType).holds status (contentTypeOf header) = false := by
  obtain ⟨m, t, hrun⟩ := exists_of_succeeds (r := generate nameInTypes default) (by decide +kernel)
  have hmethod : (match generate nameInTypes default with
      | .ok m _ => some (m.returnType.text, m.unwrappings.map (·.contentType))
      | .error .. => none) =
        some ("string", ["application/json; charset=utf-8", "application/*", "*/*"]) := by
    decide +kernel
  simp only [hrun, Option.some.injEq, Prod.mk.injEq] at hmethod
  refine ⟨m, t, hrun, hmethod.1, hmethod.2, fun a ha => ?_⟩
  have hmissed : ∀ {key header : String}, contentTypeOf header ≠ key →
      ∀ status, (Clause.media key).holds status (contentTypeOf header) = false := fun h _ => beq_eq_false_iff_ne.2 h
  have htype := List.mem_map_of_mem (f := Emit.Unwrapping.contentType) ha
  rw [hmethod.2] at htype
  simp only [List.mem_cons, List.not_mem_nil, or_false] at htype
  rcases htype with htype | htype | htype
  · exact ⟨_, .itself _, hmissed (by rw [htype, Emit.contentTypeOf_eq]; decide +kernel)⟩
  · have hfamily : Covers "application/*" "application/json" := .family (show "application" ≠ "*" by decide) "json"
    exact ⟨"application/json", htype ▸ hfamily, hmissed (by rw [htype, Emit.contentTypeOf_eq]; decide +kernel)⟩
  · exact ⟨"text/plain", htype ▸ .all "text" "plain", hmissed (by rw [htype, Emit.contentTypeOf_eq]; decide +kernel)⟩

end Operation
end TypedClient
