import TypedClient.Proofs.Grammar.Merges
import TypedClient.Proofs.Making.Runs
/-!
# Enumerations — one union with a name and without

The type of an enumeration of strings is a union of literals where it has no name, and the body of its typedef is one where it
has.  The first writes every value as the literal that it is, the second quotes the text of every value.  So both are the same
union if all values are strings, and never if another scalar is among them (`enumeration_alike`).
-/
namespace TypedClient

open Codegen (Gen Session)
open Emit (TypeExpr TypedefBody)

/-- Whether a node is a scalar that a document in JSON can hold. -/
def Node.isJsonScalar : Node → Bool
  | .null | .bool _ | .int _ | .float _ | .str _ => true
  | .other _ | .list .. | .map .. => false

namespace Grammar

variable {value : Node} {values : List Node} {text : String} {texts : List String} {s t : Session}

/-! ## Literals and texts of scalars -/

theorem atomic_intText? {i : Int} (h : Text.intText? i = some text) : Atomic text := by
  unfold Text.intText? at h
  split at h
  · cases h
    exact atomic_toString i
  · cases h

theorem atomic_floatLiteral (x : Binary64) : Atomic (Emit.floatLiteral x) := by
  cases x with
  | nan => decide
  | infinite negative => cases negative <;> decide
  | finite negative m e => exact atomic_toText (.finite negative m e)

/-- **Only a string is written with quotes.** -/
theorem atomic_literal (hjson : value.isJsonScalar = true) (hstr : ∀ x, value ≠ .str x)
    (h : Emit.literal value = .ok text) : Atomic text := by
  cases value with
  | null =>
    cases h
    decide
  | bool b =>
    cases h
    cases b <;> decide
  | int i =>
    cases hi : Text.intText? i with
    | none => simp [Emit.literal, Node.datum, Emit.atomLiteral, hi] at h
    | some digits =>
      simp only [Emit.literal, Node.datum, Emit.atomLiteral, hi, Except.ok.injEq] at h
      exact h ▸ atomic_intText? hi
  | float x =>
    cases h
    exact atomic_floatLiteral x
  | str x => exact absurd rfl (hstr x)
  | other d => cases hjson
  | list p items => cases hjson
  | map p entries => cases hjson

theorem not_atomic_quote (text : String) : ¬ Atomic (Text.quote text) := by
  intro h
  have hquote := h '"' (by simp [Text.quote])
  revert hquote
  decide

/-- **A scalar has a literal exactly if it has a text**: both are missing for a number with too many digits only. -/
theorem exists_literal_iff (hjson : value.isJsonScalar = true) :
    (∃ literal, Emit.literal value = .ok literal) ↔ ∃ text, Emit.textOf value = .ok text := by
  cases value with
  | int i =>
    cases hi : Text.intText? i with
    | none =>
      simp [Emit.literal, Emit.textOf, Node.toText?, Node.datum, Datum.text?, Atom.text?, Atom.shown?, Emit.atomLiteral, hi]
    | some digits =>
      simp [Emit.literal, Emit.textOf, Node.toText?, Node.datum, Datum.text?, Atom.text?, Atom.shown?, Emit.atomLiteral, hi]
  | other d => cases hjson
  | list p items => cases hjson
  | map p entries => cases hjson
  | _ => exact ⟨fun _ => ⟨_, rfl⟩, fun _ => ⟨_, rfl⟩⟩

/-! ## Writing values one after the other -/

/-- **What is written value by value** changes nothing, and is what is made of the texts of all values. -/
theorem mapM_eq_ok_iff {α β : Type} {f : α → Gen β} {write : α → Except Emit.Unwritable String} {made : String → β}
    (hf : ∀ x s, f x s = match write x with
      | .ok text => .ok (made text) s
      | .error e => .error (.unwritable e) s) : ∀ {xs : List α} {ys : List β} {s t : Session},
    xs.mapM f s = .ok ys t ↔
      ∃ texts, List.Forall₂ (fun x text => write x = .ok text) xs texts ∧ ys = texts.map made ∧ t = s
  | [], ys, s, t => by
    rw [List.mapM_nil, pure_eq_ok]
    constructor
    · rintro ⟨rfl, rfl⟩
      exact ⟨[], .nil, rfl, rfl⟩
    · rintro ⟨_, ⟨⟩, rfl, rfl⟩
      exact ⟨rfl, rfl⟩
  | x :: xs, ys, s, t => by
    rw [List.mapM_cons, bind_eq_ok]
    constructor
    · rintro ⟨y, u, hy, h⟩
      obtain ⟨more, v, hmore, h⟩ := bind_eq_ok.1 h
      obtain ⟨rfl, rfl⟩ := pure_eq_ok.1 h
      obtain ⟨texts, hall, rfl, rfl⟩ := (mapM_eq_ok_iff hf).1 hmore
      rw [hf] at hy
      cases hw : write x with
      | ok text =>
        rw [hw] at hy
        cases hy
        exact ⟨text :: texts, .cons hw hall, rfl, rfl⟩
      | error e =>
        rw [hw] at hy
        cases hy
    · rintro ⟨_, _ | @⟨_, text, _, texts, hw, hall⟩, rfl, rfl⟩
      refine ⟨made text, t, ?_, bind_eq_ok.2 ⟨_, t, (mapM_eq_ok_iff hf).2 ⟨texts, hall, rfl, rfl⟩, rfl⟩⟩
      rw [hf, hw]

theorem literals_eq_ok {types : List TypeExpr} : Codegen.literals values s = .ok types t ↔
    ∃ literals, List.Forall₂ (fun value literal => Emit.literal value = .ok literal) values literals ∧
      types = literals.map TypeExpr.literal ∧ t = s := by
  unfold Codegen.literals
  refine mapM_eq_ok_iff fun value s => ?_
  cases Emit.literal value <;> rfl

theorem texts_eq_ok : Codegen.texts values s = .ok texts t ↔
    List.Forall₂ (fun value text => Emit.textOf value = .ok text) values texts ∧ t = s := by
  have hiff : Codegen.texts values s = .ok texts t ↔
      ∃ written, List.Forall₂ (fun value text => Emit.textOf value = .ok text) values written ∧
        texts = written.map id ∧ t = s := by
    unfold Codegen.texts
    refine mapM_eq_ok_iff fun value s => ?_
    cases Emit.textOf value <;> rfl
  simpa using hiff

theorem exists_texts_iff (hjson : ∀ value ∈ values, value.isJsonScalar = true) :
    (∃ literals, List.Forall₂ (fun value literal => Emit.literal value = .ok literal) values literals) ↔
      ∃ texts, List.Forall₂ (fun value text => Emit.textOf value = .ok text) values texts := by
  induction values with
  | nil => exact ⟨fun _ => ⟨[], .nil⟩, fun _ => ⟨[], .nil⟩⟩
  | cons value values ih =>
    have ih := ih fun v hv => hjson v (List.mem_cons_of_mem _ hv)
    have hvalue := exists_literal_iff (hjson value List.mem_cons_self)
    constructor
    · rintro ⟨_, _ | ⟨hliteral, hliterals⟩⟩
      obtain ⟨text, htext⟩ := hvalue.1 ⟨_, hliteral⟩
      obtain ⟨texts, htexts⟩ := ih.1 ⟨_, hliterals⟩
      exact ⟨text :: texts, .cons htext htexts⟩
    · rintro ⟨_, _ | ⟨htext, htexts⟩⟩
      obtain ⟨literal, hliteral⟩ := hvalue.2 ⟨_, htext⟩
      obtain ⟨literals, hliterals⟩ := ih.2 ⟨_, htexts⟩
      exact ⟨literal :: literals, .cons hliteral hliterals⟩

/-! ## Unions of atoms -/

/-- The alternatives of a union of atoms: `never` if there are none. -/
def alternatives (atoms : List String) : List String :=
  if atoms.isEmpty then ["never"] else atoms

theorem alternatives_of_ne_nil {atoms : List String} (h : atoms ≠ []) : alternatives atoms = atoms :=
  if_neg (by simpa using h)

theorem alternatives_ne_nil (atoms : List String) : alternatives atoms ≠ [] := by
  unfold alternatives
  split
  · exact List.cons_ne_nil _ _
  · rename_i h
    exact fun hnil => h (by rw [hnil]; rfl)

def unionReading (atoms : List String) : Reading := (alternatives atoms).map fun a => [.atom a]

theorem read?_alternatives {atoms : List String} (h : ∀ a ∈ atoms, IsAtom a) :
    read? (" | ".intercalate (alternatives atoms)) = some (unionReading atoms) := by
  have hatom : ∀ a ∈ alternatives atoms, IsAtom a := by
    unfold alternatives
    split
    · exact List.forall_mem_singleton.2 ⟨Atomic.kept (by decide), by decide⟩
    · exact h
  have hread : ReadAs (alternatives atoms) ((alternatives atoms).map fun a => [[.atom a]]) :=
    List.forall₂_map_right_iff.2 (List.forall₂_same.2 fun a ha => (hatom a ha).read?)
  rw [read?_union hread (alternatives_ne_nil atoms), ← List.flatMap_def, unionReading, List.map_eq_flatMap]

theorem text_variants (texts : List String) :
    (TypedefBody.variants texts).text = " | ".intercalate (alternatives (texts.map Text.quote)) := by
  change Emit.orElseText _ _ = _
  by_cases hnil : texts = []
  · subst hnil
    rfl
  · -- what is read is not empty, so that the text of the variants stands as it is
    have hatoms : ∀ a ∈ texts.map Text.quote, IsAtom a := by
      simpa using fun x _ => isAtom_quote x
    have hread := read?_alternatives hatoms
    rw [alternatives_of_ne_nil (by simpa using hnil)] at hread ⊢
    unfold Emit.orElseText
    rw [if_neg]
    intro hempty
    rw [String.isEmpty_iff.1 hempty] at hread
    cases hread

/-- The union of literals, which is the type of no value if there are none. -/
def unionType (literals : List String) : TypeExpr :=
  if literals.isEmpty then .never else .union (literals.map TypeExpr.literal)

theorem text_unionType (literals : List String) :
    (unionType literals).text = " | ".intercalate (alternatives literals) := by
  unfold unionType alternatives
  split
  · rfl
  · rw [text_union, List.map_map]
    exact congrArg _ (List.map_id literals)

theorem read?_variants (texts : List String) :
    read? (TypedefBody.variants texts).text = some (unionReading (texts.map Text.quote)) := by
  rw [text_variants]
  exact read?_alternatives fun a ha => by
    obtain ⟨x, -, rfl⟩ := List.mem_map.1 ha
    exact isAtom_quote x

theorem read?_unionType {literals : List String}
    (h : List.Forall₂ (fun value literal => Emit.literal value = .ok literal) values literals) :
    read? (unionType literals).text = some (unionReading literals) := by
  rw [text_unionType]
  exact read?_alternatives fun a ha => by
    obtain ⟨value, -, hliteral⟩ := (exists_of_forall₂ h).2 a ha
    exact isAtom_literal hliteral

theorem exists_atom_of_mem_unionReading {atoms : List String} {i : List Factor} (h : i ∈ unionReading atoms) :
    ∃ literal, i = [.atom literal] := by
  obtain ⟨a, -, rfl⟩ := List.mem_map.1 h
  exact ⟨a, rfl⟩

/-- **What stands for an enumeration without a name** is the union of the literals of its values. -/
theorem enumerationType_eq_ok {e : TypeExpr} : Codegen.enumerationType values s = .ok e t ↔
    ∃ literals, List.Forall₂ (fun value literal => Emit.literal value = .ok literal) values literals ∧
      e = unionType literals ∧ t = s := by
  cases values with
  | nil =>
    constructor
    · rintro ⟨⟩
      exact ⟨[], .nil, rfl, rfl⟩
    · rintro ⟨_, ⟨⟩, rfl, rfl⟩
      rfl
  | cons value values =>
    have hbind : Codegen.enumerationType (value :: values) s =
        (Codegen.literals (value :: values) >>= fun types => pure (.union types)) s := rfl
    rw [hbind, bind_eq_ok]
    constructor
    · rintro ⟨types, u, htypes, h⟩
      obtain ⟨rfl, rfl⟩ := pure_eq_ok.1 h
      obtain ⟨literals, hall, rfl, rfl⟩ := literals_eq_ok.1 htypes
      cases hall with
      | cons hliteral hrest => exact ⟨_, .cons hliteral hrest, rfl, rfl⟩
    · rintro ⟨literals, hall, rfl, rfl⟩
      refine ⟨_, _, literals_eq_ok.2 ⟨literals, hall, rfl, rfl⟩, ?_⟩
      cases hall
      rfl

/-! ## With a name and without -/

/-- **Quoted texts are the literals of strings** and of nothing else. -/
theorem strings_of_quoted {literals : List String} (hjson : ∀ value ∈ values, value.isJsonScalar = true)
    (h : List.Forall₂ (fun value literal => Emit.literal value = .ok literal) values literals)
    (hquoted : ∀ literal ∈ literals, ∃ x, literal = Text.quote x) : ∀ value ∈ values, ∃ x, value = .str x := by
  intro value hvalue
  by_contra hstr
  obtain ⟨literal, hmem, hliteral⟩ := (exists_of_forall₂ h).1 value hvalue
  obtain ⟨x, rfl⟩ := hquoted literal hmem
  exact not_atomic_quote x (atomic_literal (hjson value hvalue) (not_exists.1 hstr) hliteral)

/-- **Where quoted texts and literals are the same alternatives, all values are strings.** -/
theorem strings_of_same {literals : List String} (hjson : ∀ value ∈ values, value.isJsonScalar = true)
    (hliterals : List.Forall₂ (fun value literal => Emit.literal value = .ok literal) values literals)
    (htexts : List.Forall₂ (fun value text => Emit.textOf value = .ok text) values texts)
    (hsame : ∀ i, i ∈ unionReading (texts.map Text.quote) ↔ i ∈ unionReading literals) :
    ∀ value ∈ values, ∃ x, value = .str x := by
  refine strings_of_quoted hjson hliterals fun literal hmem => ?_
  have hne : texts.map Text.quote ≠ [] := by
    rw [Ne, List.map_eq_nil_iff, ← List.length_eq_zero_iff, ← htexts.length_eq, hliterals.length_eq,
      List.length_eq_zero_iff]
    exact List.ne_nil_of_mem hmem
  have hone : [Factor.atom literal] ∈ unionReading literals := by
    rw [unionReading, alternatives_of_ne_nil (List.ne_nil_of_mem hmem)]
    exact List.mem_map_of_mem hmem
  rw [← hsame, unionReading, alternatives_of_ne_nil hne, List.map_map] at hone
  obtain ⟨x, -, heq⟩ := List.mem_map.1 hone
  cases heq
  exact ⟨x, rfl⟩

theorem literals_of_strings {literals : List String} (hstr : ∀ value ∈ values, ∃ x, value = .str x)
    (hliterals : List.Forall₂ (fun value literal => Emit.literal value = .ok literal) values literals)
    (htexts : List.Forall₂ (fun value text => Emit.textOf value = .ok text) values texts) :
    texts.map Text.quote = literals := by
  induction hliterals generalizing texts with
  | nil =>
    cases htexts
    rfl
  | cons hliteral _ ih =>
    cases htexts with
    | cons htext htexts =>
      obtain ⟨⟨x, rfl⟩, hrest⟩ := List.forall_mem_cons.1 hstr
      cases hliteral
      cases htext
      rw [List.map_cons, ih hrest htexts]

theorem bodyOf_strings {name : String} {info : SchemaInfo} {made : Option TypedefBody} :
    Codegen.bodyOf name (.enumeration info "string" values) s = .ok made t ↔
      ∃ texts, List.Forall₂ (fun value text => Emit.textOf value = .ok text) values texts ∧
        made = some (.variants texts) ∧ t = s := by
  have hbind : Codegen.bodyOf name (.enumeration info "string" values) s =
      (Codegen.texts values >>= fun texts => pure (some (.variants texts))) s := rfl
  rw [hbind, bind_eq_ok]
  constructor
  · rintro ⟨texts, u, htexts, h⟩
    obtain ⟨rfl, rfl⟩ := pure_eq_ok.1 h
    obtain ⟨hall, rfl⟩ := texts_eq_ok.1 htexts
    exact ⟨texts, hall, rfl, rfl⟩
  · rintro ⟨texts, hall, rfl, rfl⟩
    exact ⟨texts, _, texts_eq_ok.2 ⟨hall, rfl⟩, rfl⟩

/-- **The typedef of an enumeration of strings** is made of the texts of its values. -/
theorem generateTypedef_strings {name n : String} {info : SchemaInfo} (hp : info.path.bind s.definitionAt? = none) :
    Codegen.generateTypedef name (.enumeration info "string" values) s = .ok n t ↔
      ∃ d u texts, Codegen.define name info.path false s = .ok d u ∧
        List.Forall₂ (fun value text => Emit.textOf value = .ok text) values texts ∧ n = name ∧
        t = { u with draft := { u.draft with
          typedefs := u.draft.typedefs ++ [⟨name, .variants texts, info.description⟩] } } := by
  have henter : Codegen.generateTypedef name (.enumeration info "string" values) s =
      Codegen.enterTypedef name info.path info.description (Codegen.bodyOf name (.enumeration info "string" values)) s := rfl
  have hbody : ∀ s made t, Codegen.bodyOf name (.enumeration info "string" values) s = .ok made t ↔ _ :=
    fun _ _ _ => bodyOf_strings
  rw [henter]
  -- all that counts of the body is what it comes to
  generalize Codegen.bodyOf name (.enumeration info "string" values) = body at hbody ⊢
  rw [Codegen.enterTypedef_unmade hp]
  constructor
  · intro h
    obtain ⟨d, u, hd, hrest⟩ := bind_eq_ok.1 h
    obtain ⟨made, v, hmade, hadd⟩ := bind_eq_ok.1 hrest
    obtain ⟨texts, hall, rfl, rfl⟩ := (hbody _ _ _).1 hmade
    cases hadd
    exact ⟨d, v, texts, hd, hall, rfl, rfl⟩
  · rintro ⟨d, u, texts, hd, hall, rfl, rfl⟩
    exact bind_eq_ok.2 ⟨d, u, hd, bind_eq_ok.2 ⟨_, u, (hbody _ _ _).2 ⟨texts, hall, rfl, rfl⟩, rfl⟩⟩

theorem resolveType_enumeration {wanted : Option String} {info : SchemaInfo} {type : String}
    (hp : info.path.bind s.definitionAt? = none) :
    Codegen.resolveType (some (.enumeration info type values)) wanted s = Codegen.enumerationType values s := by
  unfold Codegen.resolveType Codegen.itemType Codegen.typeOf
  exact Linking.orDefined_unmade hp

/-- **An enumeration of strings is the same union with a name and without exactly if its values are all strings**: the body of
its typedef and the type that stands in its place have the same text, and are read as unions of the same literals.  The text of
a null, a truth value or a number is quoted in the typedef only.  There is a typedef exactly if there is a type, a clash of names
apart. -/
theorem enumeration_alike {s u : Session} {info : SchemaInfo} {values : List Node}
    (hjson : ∀ value ∈ values, value.isJsonScalar = true) (hs : info.path.bind s.definitionAt? = none)
    (hu : info.path.bind u.definitionAt? = none) :
    (∀ name n u', Codegen.generateTypedef name (.enumeration info "string" values) u = .ok n u' →
      ∃ texts e r q, u'.draft.typedefs = u.draft.typedefs ++ [⟨name, .variants texts, info.description⟩] ∧
        (∀ wanted, Codegen.resolveType (some (.enumeration info "string" values)) wanted s = .ok e s) ∧
        read? (TypedefBody.variants texts).text = some r ∧ read? e.text = some q ∧
        (∀ i ∈ r ++ q, ∃ literal, i = [.atom literal]) ∧
        ((TypedefBody.variants texts).text = e.text ↔ ∀ value ∈ values, ∃ x, value = .str x) ∧
        ((∀ i, i ∈ r ↔ i ∈ q) ↔ ∀ value ∈ values, ∃ x, value = .str x)) ∧
    ∀ name wanted e s' d u', Codegen.resolveType (some (.enumeration info "string" values)) wanted s = .ok e s' →
      Codegen.define name info.path false u = .ok d u' →
      ∃ n u'', Codegen.generateTypedef name (.enumeration info "string" values) u = .ok n u'' := by
  constructor
  · intro name n u' hn
    obtain ⟨d, v, texts, hd, htexts, -, rfl⟩ := (generateTypedef_strings hu).1 hn
    obtain ⟨tree, -, rfl⟩ := Codegen.define_eq_ok hd
    obtain ⟨literals, hliterals⟩ := (exists_texts_iff hjson).2 ⟨texts, htexts⟩
    have hread := read?_variants texts
    have hread' := read?_unionType hliterals
    have hstrings := strings_of_same hjson hliterals htexts
    refine ⟨texts, unionType literals, _, _, rfl, fun wanted => ?_, hread, hread', ?_, ⟨fun htext => ?_, fun hstr => ?_⟩,
      hstrings, fun hstr => ?_⟩
    · exact (resolveType_enumeration hs).trans (enumerationType_eq_ok.2 ⟨literals, hliterals, rfl, rfl⟩)
    · exact fun i hi => (List.mem_append.1 hi).elim exists_atom_of_mem_unionReading exists_atom_of_mem_unionReading
    · -- equal texts are read as one
      rw [htext, hread', Option.some.injEq] at hread
      exact hstrings fun i => by rw [hread]
    · rw [text_variants, text_unionType, literals_of_strings hstr hliterals htexts]
    · rw [literals_of_strings hstr hliterals htexts]
      exact fun _ => Iff.rfl
  · intro name wanted e s' d u' he hd
    rw [resolveType_enumeration hs] at he
    obtain ⟨literals, hliterals, -, -⟩ := enumerationType_eq_ok.1 he
    obtain ⟨texts, htexts⟩ := (exists_texts_iff hjson).1 ⟨literals, hliterals⟩
    exact ⟨_, _, (generateTypedef_strings hu).2 ⟨d, u', texts, hd, htexts, rfl, rfl⟩⟩

def kinds : List Node := [.str "small", .str "large | huge"]

theorem kinds_alike : (∀ value ∈ kinds, value.isJsonScalar = true) ∧
    ((some "#/Kind").bind petSession.definitionAt? = none) ∧ ∃ e n u' texts,
    Codegen.resolveType (some (.enumeration ⟨some "#/Kind", none⟩ "string" kinds)) none petSession = .ok e petSession ∧
    Codegen.generateTypedef "Kind" (.enumeration ⟨some "#/Kind", none⟩ "string" kinds) petSession = .ok n u' ∧
    u'.draft.typedefs = petSession.draft.typedefs ++ [⟨"Kind", .variants texts, none⟩] ∧
    (TypedefBody.variants texts).text = e.text ∧ e.text = "\"small\" | \"large | huge\"" := by
  have hjson : ∀ value ∈ kinds, value.isJsonScalar = true := by decide
  have hp : (⟨some "#/Kind", none⟩ : SchemaInfo).path.bind petSession.definitionAt? = none := by decide
  obtain ⟨n, u', hn⟩ := exists_of_succeeds
    (r := Codegen.generateTypedef "Kind" (.enumeration ⟨some "#/Kind", none⟩ "string" kinds) petSession) (by decide)
  obtain ⟨texts, e, r, q, hadded, htype, -, -, -, htext, -⟩ := (enumeration_alike hjson hp hp).1 "Kind" n u' hn
  have hsame := htext.2 (by simp [kinds])
  refine ⟨hjson, hp, e, n, u', texts, htype none, hn, hadded, hsame, ?_⟩
  cases htype none
  decide

/-- **A null among strings is the text `None` with a name**, and the literal `null` without one. -/
theorem null_quoted : ∃ e n u' r q,
    Codegen.resolveType (some (.enumeration ⟨some "#/Kind", none⟩ "string" [.str "a", .null])) none petSession =
      .ok e petSession ∧
    Codegen.generateTypedef "Kind" (.enumeration ⟨some "#/Kind", none⟩ "string" [.str "a", .null]) petSession = .ok n u' ∧
    e.text = "\"a\" | null" ∧ u'.draft.typedefs.map (·.body.text) = ["\"a\" | \"None\""] ∧
    read? e.text = some q ∧ read? "\"a\" | \"None\"" = some r ∧ ¬ ∀ i, i ∈ r ↔ i ∈ q := by
  refine ⟨_, _, _, [[.atom "\"a\""], [.atom "\"None\""]], [[.atom "\"a\""], [.atom "null"]], rfl, rfl, by decide, by decide,
    rfl, rfl, fun h => ?_⟩
  have hnull := (h [.atom "null"]).2 (by simp)
  simp at hnull

end Grammar
end TypedClient
