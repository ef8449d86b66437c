import TypedClient.Proofs.Expansion.Marks
/-!
# Readings — the references among the schemas of an expanded document

A mapping is read as a reference if it is a mark alone, and the schemas inside a schema are those of the mappings inside its mapping.  So
where nothing in the document can be mistaken for a stub, the schemas that are references are those of the mappings that were made as
stubs (`reference_iff_cut`).  What is expanded without a stub has none, and a document that can be inlined has no stubs.
-/
namespace TypedClient

/-! ## Schemas inside schemas -/

namespace Schema

/-- What a schema is made of: the properties of an object, the items of an array, the members of a merge. -/
inductive Inner : Schema → Schema → Prop where
  | property {info : SchemaInfo} {properties : List (String × Schema)} {required : List String} {name : String} {schema : Schema}
    (h : (name, schema) ∈ properties) : Inner schema (.object info properties required)
  | item {info : SchemaInfo} {schema : Schema} : Inner schema (.array info (some schema))
  | member {info : SchemaInfo} {members : List Schema} {schema : Schema} (h : schema ∈ members) : Inner schema (.merge info members)

open Relation (ReflTransGen)
open Expansion (Below)

theorem mem_readItems {schema : Schema} : ∀ {items : List Node}, schema ∈ readItems items → ∃ x ∈ items, read? x = some schema
  | [], h => by cases h
  | x :: xs, h => by
    rw [readItems] at h
    cases hx : read? x with
    | none =>
      rw [hx] at h
      obtain ⟨y, hy, hread⟩ := mem_readItems h
      exact ⟨y, List.mem_cons_of_mem _ hy, hread⟩
    | some first =>
      rw [hx] at h
      rcases List.mem_cons.1 h with rfl | h
      · exact ⟨x, List.mem_cons_self, hx⟩
      · obtain ⟨y, hy, hread⟩ := mem_readItems h
        exact ⟨y, List.mem_cons_of_mem _ hy, hread⟩

theorem mem_readEntries {name : String} {schema : Schema} : ∀ {entries : List (String × Node)},
    (name, schema) ∈ readEntries entries → ∃ x, (name, x) ∈ entries ∧ read? x = some schema
  | [], h => by cases h
  | (key, x) :: rest, h => by
    rw [readEntries] at h
    cases hx : read? x with
    | none =>
      rw [hx] at h
      obtain ⟨y, hy, hread⟩ := mem_readEntries h
      exact ⟨y, List.mem_cons_of_mem _ hy, hread⟩
    | some first =>
      rw [hx] at h
      rcases List.mem_cons.1 h with heq | h
      · obtain ⟨rfl, rfl⟩ := Prod.mk.inj heq
        exact ⟨x, List.mem_cons_self, hx⟩
      · obtain ⟨y, hy, hread⟩ := mem_readEntries h
        exact ⟨y, List.mem_cons_of_mem _ hy, hread⟩

theorem schemaIn?_eq_some {key : String} {schema : Schema} : ∀ {entries : List (String × Node)},
    schemaIn? key entries = some schema → ∃ x, (key, x) ∈ entries ∧ read? x = some schema
  | [], h => by cases h
  | (k, x) :: rest, h => by
    rw [schemaIn?] at h
    split at h
    · rename_i hk
      exact ⟨x, by rw [hk]; exact List.mem_cons_self, h⟩
    · obtain ⟨y, hy, hread⟩ := schemaIn?_eq_some h
      exact ⟨y, List.mem_cons_of_mem _ hy, hread⟩

theorem membersIn?_eq_some {key : String} {members : List Schema} : ∀ {entries : List (String × Node)},
    membersIn? key entries = some members → ∃ p items, (key, .list p items) ∈ entries ∧ members = readItems items
  | [], h => by cases h
  | (k, x) :: rest, h => by
    rw [membersIn?] at h
    split at h
    · rename_i hk
      cases x with
      | list p items => exact ⟨p, items, by rw [hk]; exact List.mem_cons_self, (Option.some.inj h).symm⟩
      | _ => cases h
    · obtain ⟨p, items, hmem, hread⟩ := membersIn?_eq_some h
      exact ⟨p, items, List.mem_cons_of_mem _ hmem, hread⟩

theorem mem_propertiesIn {key name : String} {schema : Schema} : ∀ {entries : List (String × Node)},
    (name, schema) ∈ propertiesIn key entries →
      ∃ p values x, (key, .map p values) ∈ entries ∧ (name, x) ∈ values ∧ read? x = some schema
  | [], h => by cases h
  | (k, x) :: rest, h => by
    rw [propertiesIn] at h
    split at h
    · rename_i hk
      cases x with
      | map p values =>
        obtain ⟨y, hy, hread⟩ := mem_readEntries h
        exact ⟨p, values, y, by rw [hk]; exact List.mem_cons_self, hy, hread⟩
      | _ => cases h
    · obtain ⟨p, values, y, hmem, hy, hread⟩ := mem_propertiesIn h
      exact ⟨p, values, y, List.mem_cons_of_mem _ hmem, hy, hread⟩

/-- The schemas without schemas inside are neither references nor made of any. -/
theorem leaf_cases (info : SchemaInfo) (types : List String) (entries : List (String × Node)) :
    leaf info types entries = .untyped info ∨ leaf info types entries = .primitive info types ∨
      ∃ type values, leaf info types entries = .enumeration info type values := by
  unfold leaf
  split
  · exact .inl rfl
  · split
    · exact .inr (.inr ⟨_, _, rfl⟩)
    · exact .inr (.inl rfl)
  · exact .inr (.inl rfl)

theorem not_inner_leaf {schema : Schema} (info : SchemaInfo) (types : List String) (entries : List (String × Node)) :
    ¬ Inner schema (leaf info types entries) := by
  intro h
  rcases leaf_cases info types entries with heq | heq | ⟨type, values, heq⟩ <;> rw [heq] at h <;> cases h

/-- **What a mapping is read as.** -/
theorem read?_cases {path : Option String} {entries : List (String × Node)} {schema : Schema}
    (h : read? (.map path entries) = some schema) :
    (∃ pointer, loneReference? entries = some pointer ∧ schema = .reference pointer) ∨
    (∃ members, membersIn? "allOf" entries = some members ∧ schema = .merge (infoOf path entries) members) ∨
    schema = .array (infoOf path entries) (schemaIn? "items" entries) ∨
    schema = .object (infoOf path entries) (propertiesIn "properties" entries) (requiredNames entries) ∨
    schema = leaf (infoOf path entries) (declaredTypes (entries.lookup "type")) entries := by
  rw [read?] at h
  cases hl : loneReference? entries with
  | some pointer =>
    simp only [hl, Option.some.injEq] at h
    exact .inl ⟨pointer, rfl, h.symm⟩
  | none =>
    simp only [hl] at h
    refine .inr ?_
    cases hm : membersIn? "allOf" entries with
    | some members =>
      simp only [hm, Option.some.injEq] at h
      exact .inl ⟨members, rfl, h.symm⟩
    | none =>
      simp only [hm] at h
      refine .inr ?_
      split at h
      · exact .inl (Option.some.inj h).symm
      · split at h
        · exact .inr (.inl (Option.some.inj h).symm)
        · exact .inr (.inr (Option.some.inj h).symm)

/-- **What a schema is made of is read from what stands in its mapping.** -/
theorem Inner.exists_read {n : Node} {schema inner : Schema} (h : Inner inner schema) (hn : read? n = some schema) :
    ∃ x, ReflTransGen Below x n ∧ read? x = some inner := by
  cases n with
  | map path entries =>
    rcases read?_cases hn with ⟨pointer, -, rfl⟩ | ⟨members, hm, rfl⟩ | rfl | rfl | rfl
    · cases h
    · cases h with
      | member h =>
        obtain ⟨p, items, hmem, rfl⟩ := membersIn?_eq_some hm
        obtain ⟨x, hx, hread⟩ := mem_readItems h
        exact ⟨x, .head (.item hx) (.single (.value hmem)), hread⟩
    · cases hi : schemaIn? "items" entries with
      | none =>
        rw [hi] at h
        cases h
      | some item =>
        rw [hi] at h
        cases h
        obtain ⟨x, hx, hread⟩ := schemaIn?_eq_some hi
        exact ⟨x, .single (.value hx), hread⟩
    · cases h with
      | property h =>
        obtain ⟨p, values, x, hmem, hx, hread⟩ := mem_propertiesIn h
        exact ⟨x, .head (.value hx) (.single (.value hmem)), hread⟩
    · exact absurd h (not_inner_leaf _ _ entries)
  | _ => cases hn

theorem exists_read_of_inside {n : Node} {schema inner : Schema} (h : ReflTransGen Inner inner schema)
    (hn : read? n = some schema) : ∃ x, ReflTransGen Below x n ∧ read? x = some inner := by
  induction h using ReflTransGen.head_induction_on with
  | refl => exact ⟨n, .refl, hn⟩
  | head hinner _ ih =>
    obtain ⟨x, hx, hread⟩ := ih
    obtain ⟨y, hy, hread'⟩ := hinner.exists_read hread
    exact ⟨y, hy.trans hx, hread'⟩

/-- **What is read as a reference is a mark alone.** -/
theorem exists_reference_iff (n : Node) : (∃ pointer, read? n = some (.reference pointer)) ↔ Expansion.isMark n = true := by
  constructor
  · rintro ⟨pointer, hread⟩
    cases n with
    | map path entries =>
      rcases read?_cases hread with ⟨reference, hl, -⟩ | ⟨members, -, h⟩ | h | h | h
      · exact Option.isSome_iff_exists.2 ⟨reference, hl⟩
      · cases h
      · cases h
      · cases h
      · rcases leaf_cases (infoOf path entries) (declaredTypes (entries.lookup "type")) entries with
          heq | heq | ⟨type, values, heq⟩ <;> cases h.trans heq
    | _ => cases hread
  · intro hmark
    obtain ⟨p, text, rfl⟩ := (Expansion.isMark_iff n).1 hmark
    exact ⟨text, rfl⟩

end Schema

namespace Expansion

open Relation (ReflTransGen)

/-! ## Expansions without stubs -/

/-- **Whether nothing in a traced node was made as a stub.** -/
def Uncut (m : Traced) : Prop := ∀ d, ReflTransGen Traced.Below d m → d.isCut = false

def RemembersUncut (s : Tracing) : Prop := ∀ path m, s.finished.lookup path = some m → Uncut m

section
variable {document node : Node} {path : String} {s t : Tracing} {m : Traced}

theorem Uncut.of_parts (hroot : m.isCut = false) (hparts : ∀ y, Traced.Below y m → Uncut y) : Uncut m := by
  intro d hd
  rcases Traced.inside_cases hd with rfl | ⟨y, hy, hdy⟩
  · exact hroot
  · exact hparts y hy d hdy

theorem uncut_scalar (hs : Schema.isScalar node = true) : Uncut (.scalar node hs) :=
  .of_parts rfl fun _ hy => nomatch hy

theorem uncut_merged {reference : String} {origin : Origin} {p : Option String} {found : List (String × Traced)}
    {keys : List String} {ys : List Traced} (hfound : Uncut (.map origin p found)) (hys : ∀ y ∈ ys, Uncut y) :
    Uncut (.merged reference origin found keys ys) := by
  have horigin : origin.isCut = false := hfound _ .refl
  refine .of_parts ?_ fun y hy => ?_
  · show (keys.isEmpty && origin.isCut) = false
    rw [horigin, Bool.and_false]
  · cases hy with
    | value hy =>
      rcases Traced.mem_setKeys hy with h | h
      · exact hys y (List.of_mem_zip h).2
      · rcases Traced.mem_setKeys h with h | h
        · exact fun d hd => hfound d (hd.tail (.value h))
        · obtain ⟨-, rfl⟩ := Prod.mk.inj (List.mem_singleton.1 h)
          exact uncut_scalar rfl

theorem RemembersUncut.conclude (ht : RemembersUncut t) (hle : s.stubs ≤ t.stubs) (hm : t.stubs = s.stubs → Uncut m) :
    s.stubs ≤ (Tracing.conclude path s m t).stubs ∧ RemembersUncut (.conclude path s m t) ∧
      ((Tracing.conclude path s m t).stubs = s.stubs → Uncut m) := by
  refine ⟨hle, fun q w hw => ?_, hm⟩
  rw [Tracing.conclude] at hw
  by_cases hstubs : t.stubs = s.stubs
  · simp only [if_pos hstubs, List.lookup_cons] at hw
    cases hq : q == path with
    | true =>
      rw [hq] at hw
      cases hw
      exact hm hstubs
    | false =>
      rw [hq] at hw
      exact ht q w hw
  · simp only [if_neg hstubs] at hw
    exact ht q w hw

end

mutual
/-- **An expansion that makes no stub comes to nothing that was made as one.** -/
theorem Runs.uncut {document node : Node} {path : String} {s t : Tracing} {m : Traced} (hs : RemembersUncut s) :
    Runs document node path s m t → s.stubs ≤ t.stubs ∧ RemembersUncut t ∧ (t.stubs = s.stubs → Uncut m)
  | .scalar hscalar => ⟨Nat.le_refl _, hs, fun _ => uncut_scalar hscalar⟩
  | .known _ hk => ⟨Nat.le_refl _, hs, fun _ => hs path m hk⟩
  | .items _ hitems => by
    obtain ⟨hle, ht, hys⟩ := hitems.uncut (s := s.begin path) hs
    refine ht.conclude hle fun heq => .of_parts rfl fun y hy => ?_
    cases hy with
    | item hy => exact hys heq y hy
  | .entries _ _ hentries => by
    obtain ⟨hle, ht, hys⟩ := hentries.uncut (s := s.begin path) hs
    refine ht.conclude hle fun heq => .of_parts rfl fun y hy => ?_
    cases hy with
    | value hy => exact hys heq y (List.of_mem_zip hy).2
  | .cut _ _ _ _ =>
    RemembersUncut.conclude (t := { s.begin path with stubs := s.stubs + 1 }) hs (Nat.le_succ _)
      fun heq => absurd heq (Nat.succ_ne_self _)
  | .passed _ _ _ _ _ hnext _ => by
    obtain ⟨hle, ht, hm⟩ := hnext.uncut (s := s.begin path) hs
    exact ht.conclude hle hm
  | .joined _ _ _ _ _ hnext hbeside => by
    obtain ⟨hle, hu, hfound⟩ := hnext.uncut (s := s.begin path) hs
    obtain ⟨hle', ht, hys⟩ := hbeside.uncut hu
    refine ht.conclude (Nat.le_trans hle hle') fun heq => ?_
    have hle : s.stubs ≤ _ := hle
    exact uncut_merged (hfound (Nat.le_antisymm (heq ▸ hle') hle)) (hys (Nat.le_antisymm (heq ▸ hle) hle'))

theorem RunsAll.uncut {document : Node} {parts : List (String × Node)} {s t : Tracing} {ys : List Traced}
    (hs : RemembersUncut s) : RunsAll document parts s ys t →
    s.stubs ≤ t.stubs ∧ RemembersUncut t ∧ (t.stubs = s.stubs → ∀ y ∈ ys, Uncut y)
  | .nil => ⟨Nat.le_refl _, hs, fun _ _ h => absurd h List.not_mem_nil⟩
  | .cons hx hrest => by
    obtain ⟨hle, hu, hm⟩ := hx.uncut hs
    obtain ⟨hle', ht, hys⟩ := hrest.uncut hu
    refine ⟨Nat.le_trans hle hle', ht, fun heq y hy => ?_⟩
    rcases List.mem_cons.1 hy with rfl | hy
    · exact hm (by omega)
    · exact hys (by omega) y hy
end

section
variable {document v : Node} {depth : Nat} {t : Expansion}

theorem remembersUncut_empty : RemembersUncut .empty := fun _ _ h => nomatch h

/-- **A document that can be inlined is expanded without a stub**, at any depth that suffices. -/
theorem stubs_eq_zero (hd : document.Proper) {less : Nat} (hinlined : inlined document less ≠ .error .endless)
    (h : within document depth document "#" .empty = .ok v t) : t.stubs = 0 := by
  obtain ⟨hanswer, hzero⟩ := expand_eq_inlined document hd less hinlined
  have hasked : asked document document = document := by
    cases document <;> rfl
  have hexpand : document.expand = Outcome.answer (expandAt document document "#" .empty) := by
    unfold Node.expand Node.expandAt Outcome.answer
    cases expandAt document document "#" .empty <;> rfl
  have hlimit : expandAt document document "#" .empty =
      within document (depthLimit document document) document "#" .empty := by
    unfold expandAt
    rw [hasked]
  have hended : Outcome.Ended (within document (depthLimit document document) document "#" .empty) := by
    rw [Outcome.Ended, ← hlimit, ← hexpand, hanswer]
    exact hinlined
  have heq := within_mono (Nat.le_max_right depth _) hended
  rw [within_of_le (Nat.le_max_left depth _) h, ← hlimit] at heq
  rw [← heq] at hzero
  exact hzero

theorem Runs.uncut_of_inlined (hd : document.Proper) {less : Nat} (hinlined : inlined document less ≠ .error .endless)
    {m : Traced} {u : Tracing} (h : Runs document document "#" .empty m u) : Uncut m := by
  obtain ⟨depth, hwithin⟩ := h.within
  have hzero : u.stubs = 0 := stubs_eq_zero hd hinlined hwithin
  exact (h.uncut remembersUncut_empty).2.2 hzero

end

/-! ## References -/

/-- **The schemas that are references are those of the stubs.**  If nothing in a document can be mistaken for a stub, then of what the
document is traced to, just the mappings that were made as stubs are read as references; and if no reference leads to a reference, these
are the stubs themselves.  That goes for every mapping of the expanded document and for every schema inside the schema of one.  So
no schema of a document that can be inlined is a reference, nor is any schema inside. -/
theorem reference_iff_cut (document out : Node) (depth : Nat) (hd : document.Proper)
    (hu : document.everywhere (unmistakable document) = true)
    (h : Outcome.answer (within document depth document "#" .empty) = .ok out) :
    ∃ m t, Runs document document "#" .empty m t ∧ m.erase = out ∧
      (∀ d, ReflTransGen Traced.Below d m →
        ((∃ pointer, Schema.read? d.erase = some (.reference pointer)) ↔ d.isCut = true)) ∧
      (Direct document → ∀ d, ReflTransGen Traced.Below d m → d.isCut = true → d.origin? = some .cut) ∧
      (∀ n, ReflTransGen Below n out → ∃ d, ReflTransGen Traced.Below d m ∧ d.erase = n) ∧
      (∀ n schema inner, ReflTransGen Below n out → Schema.read? n = some schema → ReflTransGen Schema.Inner inner schema →
        ∃ d, ReflTransGen Traced.Below d m ∧ Schema.read? d.erase = some inner) ∧
      ∀ less, inlined document less ≠ .error .endless → ∀ n schema inner pointer, ReflTransGen Below n out →
        Schema.read? n = some schema → ReflTransGen Schema.Inner inner schema → inner ≠ .reference pointer := by
  have hroot := Pointer.resolve_root document
  obtain ⟨t, hwithin⟩ : ∃ t, within document depth document "#" .empty = .ok out t := by
    cases hw : within document depth document "#" .empty with
    | error e t =>
      rw [hw] at h
      cases h
    | ok v t =>
      rw [hw] at h
      cases h
      exact ⟨t, rfl⟩
  obtain ⟨m, u, hruns, rfl, -⟩ := within_traced depth document "#" .empty out t hwithin
  have hremembers : Remembers document (Tracing.erase .empty) := remembers_empty document
  have hmarked := (hruns.marked hd hu hroot hremembers fun _ _ _ h => nomatch h).1.inside
  have hreads : ∀ d, ReflTransGen Traced.Below d m →
      ((∃ pointer, Schema.read? d.erase = some (.reference pointer)) ↔ d.isCut = true) := fun d hd =>
    (Schema.exists_reference_iff d.erase).trans (hmarked.marks d hd)
  have hinner : ∀ n schema inner, ReflTransGen Below n m.erase → Schema.read? n = some schema →
      ReflTransGen Schema.Inner inner schema → ∃ d, ReflTransGen Traced.Below d m ∧ Schema.read? d.erase = some inner := by
    intro n schema inner hn hread hin
    obtain ⟨x, hx, hread'⟩ := Schema.exists_read_of_inside hin hread
    obtain ⟨d, hdm, rfl⟩ := Traced.exists_inside (hx.trans hn)
    exact ⟨d, hdm, hread'⟩
  refine ⟨m, u, hruns, rfl, hreads, hmarked.direct, fun n hn => Traced.exists_inside hn, hinner, ?_⟩
  rintro less hless n schema _ pointer hn hread hin rfl
  obtain ⟨d, hdm, hread'⟩ := hinner n schema _ hn hread hin
  have hcut := (hreads d hdm).1 ⟨pointer, hread'⟩
  rw [hruns.uncut_of_inlined hd hless d hdm] at hcut
  cases hcut

/-- A type that holds itself by another name, and anything with a description. -/
def linked : Node :=
  .map none [
    ("Cell", .map none [("type", .str "object"), ("properties", .map none [
      ("next", .map none [("$ref", .str "#/Alias")]),
      ("rest", .map none [("$ref", .str "#/Any"), ("description", .str "The rest")])])]),
    ("Alias", .map none [("$ref", .str "#/Cell")]),
    ("Any", .map none [])]

/-- What stands for the next cell where the cycle is closed over the other name. -/
def linkedNext : Node := .map (some "#/Alias") [("$ref", .str "#/Cell")]

def linkedOut : Node :=
  let rest := Node.map (some "#/Any") [("$ref", .str "#/Any"), ("description", .str "The rest")]
  let body := fun next : Node => [("type", Node.str "object"), ("properties", .map (some "#/Cell/properties")
    [("next", next), ("rest", rest)])]
  .map (some "#") [
    ("Cell", .map (some "#/Cell") (body linkedNext)),
    ("Alias", .map (some "#/Cell") (("$ref", .str "#/Cell") :: body (stub "#/Alias"))),
    ("Any", .map (some "#/Any") [])]

theorem linked_reference_iff_cut :
    (linked.Proper ∧ linked.everywhere (unmistakable linked) = true) ∧
    Outcome.answer (within linked 3 linked "#" .empty) = .ok linkedOut ∧
    ∃ m, m.erase = linkedOut ∧
      (∀ d, ReflTransGen Traced.Below d m →
        ((∃ pointer, Schema.read? d.erase = some (.reference pointer)) ↔ d.isCut = true)) ∧
      ∃ d, ReflTransGen Traced.Below d m ∧ d.erase = linkedNext ∧ d.isCut = true := by
  have hd : linked.Proper := by decide
  have hu : linked.everywhere (unmistakable linked) = true := by decide +kernel
  have hout : Outcome.answer (within linked 3 linked "#" .empty) = .ok linkedOut := by decide +kernel
  obtain ⟨m, t, -, hm, hreads, -, hall, -, -⟩ := reference_iff_cut linked linkedOut 3 hd hu hout
  have hcell : ReflTransGen Below linkedNext linkedOut :=
    .head (.value List.mem_cons_self)
      (.head (.value (List.mem_cons_of_mem _ List.mem_cons_self)) (.single (.value List.mem_cons_self)))
  obtain ⟨d, hdm, hnext⟩ := hall linkedNext hcell
  exact ⟨⟨hd, hu⟩, hout, m, hm, hreads, d, hdm, hnext, (hreads d hdm).1 ⟨"#/Cell", by rw [hnext]; rfl⟩⟩

/-- An empty mapping, and a reference to it. -/
def anything : Node :=
  .map none [("Anything", .map none []),
    ("Holder", .map none [("type", .str "object"), ("properties", .map none [
      ("value", .map none [("$ref", .str "#/Anything")])])])]

def anythingValue : Node := .map (some "#/Anything") [("$ref", .str "#/Anything")]

def anythingOut : Node :=
  .map (some "#") [("Anything", .map (some "#/Anything") []),
    ("Holder", .map (some "#/Holder") [("type", .str "object"),
      ("properties", .map (some "#/Holder/properties") [("value", anythingValue)])])]

/-- **A reference to an empty mapping looks like a stub**: it is read as a reference although nothing is cut. -/
theorem anything_reads_reference :
    anything.Proper ∧ inlined anything 1 ≠ .error .endless ∧
    Outcome.answer (within anything 1 anything "#" .empty) = .ok anythingOut ∧
    (∀ m t, Runs anything anything "#" .empty m t → m.erase = anythingOut ∧ Uncut m) ∧
    ReflTransGen Below anythingValue anythingOut ∧ Schema.read? anythingValue = some (.reference "#/Anything") := by
  have hd : anything.Proper := by decide
  have hinlined : inlined anything 1 ≠ .error .endless := by decide +kernel
  have hout : Outcome.answer (within anything 1 anything "#" .empty) = .ok anythingOut := by decide +kernel
  refine ⟨hd, hinlined, hout, fun m t h => ⟨?_, h.uncut_of_inlined hd hinlined⟩, ?_, rfl⟩
  · obtain ⟨depth, hwithin⟩ := h.within
    have hended : Outcome.Ended (within anything 1 anything "#" .empty) := by
      rw [Outcome.Ended, hout]
      simp
    have heq := within_mono (Nat.le_max_right depth 1) hended
    rw [show Expansion.empty = Tracing.erase .empty from rfl, within_of_le (Nat.le_max_left depth 1) hwithin] at heq
    rw [show Expansion.empty = Tracing.erase .empty from rfl, ← heq] at hout
    exact Except.ok.inj hout
  · exact .head (.value List.mem_cons_self)
      (.head (.value (List.mem_cons_of_mem _ List.mem_cons_self))
        (.single (.value (List.mem_cons_of_mem _ List.mem_cons_self))))

end Expansion
end TypedClient
