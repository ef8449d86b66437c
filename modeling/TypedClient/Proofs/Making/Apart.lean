import TypedClient.Proofs.Making.Feasible
/-!
# Apart — names that do not meet

The name of a typedef is made from that of its operation, and has to be free in the module of the class.  An import takes a free
name there, so it may have taken that one before.  Where the names that the operations of a class ask for are apart from each
other, from the class, and from all names that an import may take (`NamesApart`), they are free whenever they are asked for;
then a run for a document that allows for it comes to its end (`failure_none_of_apart`).
-/
namespace TypedClient

open Scope (Definition Symbol Table Tree)

/-! ## Names that imports take -/

namespace Scope

/-- **What an import does**: nothing if the symbol is there, or else it takes a candidate for the short name. -/
theorem Tree.importSymbol_candidate {t t' : Tree} {id : Id} {source name : String}
    (h : t.importSymbol id source none = (t', .ok name)) :
    t' = t ∨ t' = t.enter id (.imported name source) ∧ ∃ k, name = Table.candidate (Text.afterLast '.' source) k := by
  unfold importSymbol at h
  cases hf : (t.table id).find? (·.provides source) with
  | some symbol =>
    rw [hf] at h
    cases h
    exact .inl rfl
  | none =>
    rw [hf] at h
    cases h
    exact .inr ⟨rfl, Table.exists_freeName_eq_candidate _ _⟩

end Scope

namespace Making

open Codegen (Session Workspace)
open Linking (World)
open Operation (Spec collect classOf)

variable {document : Node} {settings : Settings} {s s' s₀ : Session} {c name : String} {place : Option String}
  {shared : Workspace} {rest : List String}

/-! ## Names that are asked for -/

/-- **The typedefs that the operations of a class ask for**: their names, and the places of their schemas. -/
def AskedIn (document : Node) (default c name : String) (place : Option String) : Prop :=
  ∃ spec ∈ collect document, classOf document default spec = c ∧ ∃ schema wanted, spec.Needs schema wanted ∧
    Schema.askedByItems? schema (some wanted) = some (name, place)

/-- The names that the module of the component schemas defines, if it is made. -/
def componentNames (document : Node) (settings : Settings) : List String :=
  match Generate.generateTypedefs (Generate.componentSchemas document) (World.definitions settings).session with
  | .ok _ s => definedNames s
  | .error .. => []

theorem componentNames_eq (hf : Feasible document settings s₀) : componentNames document settings = definedNames s₀ := by
  unfold componentNames
  rw [hf.definitions]

/-- The names whose definitions the module of a class may import: those of the component schemas, and those that the
operations of other classes ask for. -/
def Foreign (document : Node) (settings : Settings) (c name : String) : Prop :=
  name ∈ componentNames document settings ∨
    ∃ other ≠ c, ∃ place, AskedIn document settings.defaultApiName other name place

/-- **Whether the names that operations ask for are apart**: none is that of its class; none is asked for in one class for two
schemas; and none is what an import into its class may be called. -/
structure NamesApart (document : Node) (settings : Settings) : Prop where
  ofClass : ∀ {c name place}, AskedIn document settings.defaultApiName c name place → name ≠ c
  ofSchemas : ∀ {c name place place'}, AskedIn document settings.defaultApiName c name place →
    AskedIn document settings.defaultApiName c name place' → ∃ p, place = some p ∧ place' = some p
  ofImports : ∀ {c name place}, AskedIn document settings.defaultApiName c name place →
    ∀ other, Foreign document settings c other → ∀ k, name ≠ Table.candidate other k

/-- Whether the values that are enumerated in the types of the operations have literals. -/
def Writable (document : Node) : Prop :=
  ∀ spec ∈ collect document, ∀ schema wanted, spec.Needs schema wanted → ∀ value ∈ Schema.listedByItems schema,
    ∃ text, Emit.literal value = .ok text

theorem AskedIn.dotless {default : String} (h : AskedIn document default c name place) : Dotless name := by
  obtain ⟨spec, -, -, schema, wanted, hneeds, hasked⟩ := h
  exact (allowed_of_needs hneeds).asked _ _ hasked

theorem AskedIn.ne_client {default : String} (h : AskedIn document default c name place) : name ≠ "Client" := by
  obtain ⟨spec, -, -, schema, wanted, hneeds, hasked⟩ := h
  have hlong : 7 ≤ name.length := by
    refine Schema.askedByItems?_of (q := fun n => 7 ≤ n.length) (fun n hn => ?_) schema ?_ hasked
    · rw [String.length_append]
      omega
    · rintro n ⟨⟩
      exact hneeds.length_le
  rintro rfl
  exact absurd hlong (by decide)

/-! ## Checking that names are apart

What the operations ask for is a list, so it can be checked whether names are apart.  The check goes without the numbers that
an import may have behind its name: no name that is asked for may begin with a foreign one.
-/

/-- What the operations of a document ask for: the class, the name, and the place of the schema. -/
def asks (document : Node) (default : String) : List (String × String × Option String) :=
  (collect document).flatMap fun spec => spec.needs.filterMap fun (schema, wanted) =>
    (Schema.askedByItems? schema (some wanted)).map fun asked => (classOf document default spec, asked)

theorem AskedIn.mem_asks {default : String} (h : AskedIn document default c name place) :
    (c, name, place) ∈ asks document default := by
  obtain ⟨spec, hspec, rfl, schema, wanted, hneeds, hasked⟩ := h
  exact List.mem_flatMap.2 ⟨spec, hspec, List.mem_filterMap.2 ⟨_, hneeds.mem_needs, Option.map_eq_some_iff.2 ⟨_, hasked, rfl⟩⟩⟩

/-- Whether a name begins with another one. -/
def beginsWith (name other : String) : Bool :=
  other.toList.isPrefixOf name.toList

theorem beginsWith_candidate (other : String) (k : Nat) : beginsWith (Table.candidate other k) other = true := by
  unfold beginsWith Table.candidate
  rw [List.isPrefixOf_iff_prefix]
  split
  · exact List.prefix_refl _
  · rw [String.append_assoc, String.toList_append]
    exact List.prefix_append _ _

/-- A check whether names are apart. -/
def checkApart (document : Node) (settings : Settings) : Bool :=
  let asks := asks document settings.defaultApiName
  let components := componentNames document settings
  asks.all fun (c, name, place) => name != c && place.isSome && components.all (!beginsWith name ·) &&
    asks.all fun (c', name', place') => if c' = c then name' != name || place' == place else !beginsWith name name'

theorem namesApart_of_check (h : checkApart document settings = true) : NamesApart document settings := by
  have hall : ∀ {c name place}, AskedIn document settings.defaultApiName c name place →
      ((name ≠ c ∧ place.isSome = true) ∧ ∀ other ∈ componentNames document settings, beginsWith name other = false) ∧
      ∀ {c' name' place'}, AskedIn document settings.defaultApiName c' name' place' →
        if c' = c then name' = name → place' = place else beginsWith name name' = false := by
    intro c name place hasked
    have hone := List.all_eq_true.1 h _ hasked.mem_asks
    simp only [Bool.and_eq_true, bne_iff_ne, List.all_eq_true, Bool.not_eq_true'] at hone
    refine ⟨hone.1, fun {c' name' place'} hasked' => ?_⟩
    have htwo := hone.2 _ hasked'.mem_asks
    dsimp only at htwo
    split
    · rename_i hc
      rw [if_pos hc, Bool.or_eq_true, bne_iff_ne, beq_iff_eq] at htwo
      exact fun hname => htwo.resolve_left (absurd hname)
    · rename_i hc
      rwa [if_neg hc, Bool.not_eq_true'] at htwo
  refine ⟨fun hasked => (hall hasked).1.1.1, fun {c name place place'} hasked hasked' => ?_,
    fun {c name place} hasked other hforeign k => ?_⟩
  · obtain ⟨p, hp⟩ := Option.isSome_iff_exists.1 (hall hasked).1.1.2
    have hsame := (hall hasked).2 hasked'
    rw [if_pos rfl] at hsame
    exact ⟨p, hp, (hsame rfl).trans hp⟩
  · rintro rfl
    have hbegins := beginsWith_candidate other k
    rcases hforeign with hcomponent | ⟨c', hne, place', hasked'⟩
    · exact nomatch hbegins.symm.trans ((hall hasked).1.2 other hcomponent)
    · have hother := (hall hasked).2 hasked'
      rw [if_neg hne] at hother
      exact nomatch hbegins.symm.trans hother

/-- A check whether the values that are enumerated have literals. -/
def checkWritable (document : Node) : Bool :=
  (collect document).all fun spec => spec.needs.all fun (schema, _) =>
    (Schema.listedByItems schema).all fun value => (Emit.literal value).isOk

theorem writable_of_check (h : checkWritable document = true) : Writable document := by
  intro spec hspec schema wanted hneeds value hvalue
  have hok := List.all_eq_true.1 (List.all_eq_true.1 (List.all_eq_true.1 h spec hspec) _ hneeds.mem_needs) value hvalue
  cases hl : Emit.literal value with
  | ok text => exact ⟨text, rfl⟩
  | error e =>
    rw [hl] at hok
    cases hok

/-! ## What the modules define -/

/-- **What is known of a definition**, by the scope of its module and with the classes that are still to come: it is the client
class, comes from the component schemas, or belongs to a class that has its module. -/
inductive Known (document : Node) (settings : Settings) (rest : List String) (scope : String) (d : Definition) : Prop where
  | client (hs : scope = "client") (hd : d.localName = "Client") (hp : d.specPath = none)
  | component (hs : scope = "definitions") (hd : d.localName ∈ componentNames document settings)
  | ofClass (hs : scope ∉ rest) (hd : d.localName = scope) (hp : d.specPath = none)
  | asked (hs : scope ∉ rest) (h : AskedIn document settings.defaultApiName scope d.localName d.specPath)

/-- Whether all definitions are known. -/
def AllKnown (document : Node) (settings : Settings) (rest : List String) (shared : Workspace) : Prop :=
  ∀ home ≠ 0, ∀ d, .defined d ∈ shared.scopes.table home → Known document settings rest (shared.scopes.get home).name d

theorem Known.mono {scope : String} {d : Definition} (h : Known document settings (c :: rest) scope d) :
    Known document settings rest scope d := by
  cases h with
  | client hs hd hp => exact .client hs hd hp
  | component hs hd => exact .component hs hd
  | ofClass hs hd hp => exact .ofClass (fun hm => hs (List.mem_cons_of_mem _ hm)) hd hp
  | asked hs h => exact .asked (fun hm => hs (List.mem_cons_of_mem _ hm)) h

/-- What is made of a schema in another module may be imported. -/
theorem Known.foreign {scope : String} {d : Definition} (h : Known document settings (c :: rest) scope d)
    (hp : d.specPath = some name) : Foreign document settings c d.localName := by
  cases h with
  | client _ _ hnone => exact nomatch hnone.symm.trans hp
  | component _ hd => exact .inl hd
  | ofClass _ _ hnone => exact nomatch hnone.symm.trans hp
  | asked hs h => exact .inr ⟨scope, fun heq => hs (heq ▸ List.mem_cons_self), _, h⟩

/-- **What is known of the module of a class in the making**: its definitions are the class and what its operations ask for,
and its imports have names of foreign definitions, or candidates for them. -/
structure Orderly (document : Node) (settings : Settings) (c : String) (rest : List String) (s : Session) : Prop where
  fresh : c ∉ rest
  name : (s.shared.scopes.get s.draft.scope).name = c
  others : ∀ home ≠ 0, home ≠ s.draft.scope → ∀ d, .defined d ∈ s.shared.scopes.table home →
    Known document settings (c :: rest) (s.shared.scopes.get home).name d
  own : ∀ d, .defined d ∈ s.shared.scopes.table s.draft.scope →
    d.localName = c ∧ d.specPath = none ∨ AskedIn document settings.defaultApiName c d.localName d.specPath
  imports : ∀ n source, .imported n source ∈ s.shared.scopes.table s.draft.scope →
    n = "Client" ∨ ∃ other, Foreign document settings c other ∧ ∃ k, n = Table.candidate other k

section Free

variable (hapart : NamesApart document settings) (h : Orderly document settings c rest s) (hfit : Fit s)
  (hasked : AskedIn document settings.defaultApiName c name place) (hp : place.bind s.definitionAt? = none)
include hapart h hfit hasked hp

/-- **A name that is asked for is free in the module.** -/
theorem Orderly.not_mem_own : name ∉ (s.shared.scopes.table s.draft.scope).map Symbol.localName := by
  intro hmem
  obtain ⟨symbol, hsymbol, hlocal⟩ := List.mem_map.1 hmem
  cases symbol with
  | imported n source =>
    rcases h.imports n source hsymbol with hclient | ⟨other, hforeign, k, hcandidate⟩
    · exact hasked.ne_client (hlocal.symm.trans hclient)
    · exact hapart.ofImports hasked other hforeign k (hlocal.symm.trans hcandidate)
  | defined d =>
    rcases h.own d hsymbol with ⟨hclass, -⟩ | hold
    · exact hapart.ofClass hasked (hlocal.symm.trans hclass)
    · -- the name was entered for the same schema, which has its definition then
      obtain ⟨p, hplace, rfl⟩ := hapart.ofSchemas (show AskedIn document _ c name d.specPath from hlocal ▸ hold) hasked
      obtain ⟨e, he⟩ := Codegen.exists_definitionAt? hfit.sound hfit.isModule hfit.isModule.1 hsymbol hplace
      exact nomatch he.symm.trans hp

/-- **Its qualified name is free in the root.** -/
theorem Orderly.not_mem_root :
    Tree.qualify (s.shared.scopes.get s.draft.scope).name name ∉ (s.shared.scopes.table 0).map Symbol.localName := by
  intro hmem
  obtain ⟨symbol, hsymbol, hlocal⟩ := List.mem_map.1 hmem
  obtain ⟨home, h0, d, hd, rfl⟩ := hfit.sound.copies _ hsymbol
  obtain ⟨hscope, rfl⟩ := Tree.qualify_inj (hfit.sound.dotless home h0 _ hd) hasked.dotless hlocal
  rw [h.name] at hscope
  by_cases hhome : home = s.draft.scope
  · subst hhome
    exact h.not_mem_own hapart hfit hasked hp (List.mem_map.2 ⟨_, hd, rfl⟩)
  · have hknown := h.others home h0 hhome d hd
    rw [hscope] at hknown
    cases hknown with
    | client _ hname _ => exact hasked.ne_client hname
    | component _ hname => exact hapart.ofImports hasked _ (.inl hname) 0 rfl
    | ofClass hs _ _ => exact hs List.mem_cons_self
    | asked hs _ => exact hs List.mem_cons_self

end Free

/-! ## Steps -/

/-- What a symbol is that comes into the module of a class, after the class itself. -/
def Entering (document : Node) (settings : Settings) (c : String) : Symbol → Prop
  | .defined d => AskedIn document settings.defaultApiName c d.localName d.specPath
  | .imported n _ => ∃ other, Foreign document settings c other ∧ ∃ k, n = Table.candidate other k

/-- **A step keeps what is known** if no other symbols come into the module. -/
theorem Orderly.of_since (h : Orderly document settings c rest s) (hsince : Since s s')
    (htable : ∀ symbol ∈ s'.shared.scopes.table s.draft.scope, symbol ∈ s.shared.scopes.table s.draft.scope ∨
      Entering document settings c symbol) : Orderly document settings c rest s' where
  fresh := h.fresh
  name := by rw [hsince.scope, hsince.name, h.name]
  others home h0 hne d hd := by
    rw [hsince.scope] at hne
    rw [hsince.table h0 hne] at hd
    rw [hsince.name]
    exact h.others home h0 hne d hd
  own d hd := by
    rw [hsince.scope] at hd
    rcases htable _ hd with hold | hnew
    · exact h.own d hold
    · exact .inr hnew
  imports n source hi := by
    rw [hsince.scope] at hi
    rcases htable _ hi with hold | hnew
    · exact h.imports n source hold
    · exact .inr hnew

/-- **An import takes a candidate for a foreign name.** -/
theorem Orderly.use (h : Orderly document settings c rest s) (hfit : Fit s) {p localName : String} {d : Definition}
    (hp : s.definitionAt? p = some d) (hs : Codegen.nameOf d s = .ok localName s') : Orderly document settings c rest s' := by
  have hsince := hfit.since_nameOf hp hs
  obtain ⟨t, home, e, hfound, himport, -, -, hs'⟩ := hfit.use hp hs
  have htable : ∀ symbol ∈ t.table s.draft.scope, symbol ∈ s.shared.scopes.table s.draft.scope ∨
      Entering document settings c symbol := by
    cases hfound with
    | own hd hplace =>
      -- what is the module's own is not imported
      cases himport.symm.trans (hfit.sound.importSymbol_own hfit.isModule hd)
      exact fun _ => .inl
    | foreign h0 hne hd hplace =>
      rcases Tree.importSymbol_candidate himport with rfl | ⟨rfl, k, hcandidate⟩
      · exact fun _ => .inl
      · intro symbol hsymbol
        rw [(Tree.grown_enter hfit.isModule.2 _).table, if_pos rfl, List.mem_append, List.mem_singleton] at hsymbol
        rcases hsymbol with hold | rfl
        · exact .inl hold
        · have hdotless : Dotless e.localName := hfit.sound.dotless home h0 _ hd
          refine .inr ⟨e.localName, (h.others home h0 hne e hd).foreign hplace, k, ?_⟩
          rw [hcandidate]
          exact congrArg (Table.candidate · k) (Scope.afterLast_qualify hdotless _)
  rcases hs' with rfl | ⟨q, rfl⟩
  · exact h.of_since hsince htable
  · exact h.of_since hsince htable

/-- **With names apart and values writable, no step fails.** -/
theorem rules_orderly (hapart : NamesApart document settings) (c : String) (rest : List String) :
    Rules (fun _ _ s => Orderly document settings c rest s) (AskedIn document settings.defaultApiName c)
      (fun value => ∃ text, Emit.literal value = .ok text) fun _ _ => False where
  dotless h := h.dotless
  mono h _ := h
  warn _ h hs := h.of_since (since_warn hs) (by cases hs; exact fun _ => .inl)
  enter {_ _ s s' name place d} hfit h hasked hp hs := by
    have hsince := hfit.since_define hs
    obtain ⟨t, rfl, hlocal, hplace, -, htable, -⟩ := hfit.entered hs
    refine h.of_since hsince fun symbol hsymbol => ?_
    change symbol ∈ t.table s.draft.scope at hsymbol
    rw [htable, List.mem_append, List.mem_singleton] at hsymbol
    rcases hsymbol with hold | rfl
    · exact .inl hold
    · exact .inr (show AskedIn document _ c d.localName d.specPath from hlocal.symm ▸ hplace.symm ▸ hasked)
  clash {_ _ s s' name place e} hfit h hasked hp hs := by
    rcases hfit.define_cases name place false with ⟨_, _, -, hown | hroot⟩ | ⟨-, -, d, u, hok⟩
    · exact h.not_mem_own hapart hfit hasked hp hown
    · exact h.not_mem_root hapart hfit hasked hp hroot
    · exact nomatch hok.symm.trans hs
  use hfit h hp hs := h.use hfit hp hs
  finish h hs := h.of_since (since_addTypedef hs) (by cases hs; exact fun _ => .inl)
  literal _ hlisted hs := by
    obtain ⟨text, htext⟩ := hlisted
    exact nomatch htext.symm.trans hs

/-! ## Runs -/

/-- **Before the classes, the definitions are the client class and those of the component schemas.** -/
theorem allKnown_definitions (hf : Feasible document settings s₀) (rest : List String) :
    AllKnown document settings rest s₀.shared := by
  obtain ⟨hfit, hsince, -⟩ := hf.made
  intro home h0 d hd
  by_cases hhome : home = s₀.draft.scope
  · refine .component ?_ ?_
    · rw [hsince.name, hhome, hsince.scope]
      rfl
    · exact componentNames_eq hf ▸ mem_definedNames.2 ⟨d, hhome ▸ hd, rfl⟩
  · rw [hsince.scope] at hhome
    rw [hsince.table h0 hhome] at hd
    rw [hsince.name]
    match home, h0, hhome, hd with
    | 0, h0, _, _ => exact absurd rfl h0
    | 1, _, _, hd =>
      cases List.mem_singleton.1 hd
      exact .client rfl rfl rfl
    | 2, _, hhome, _ => exact absurd rfl hhome
    | _ + 3, _, _, hd => cases hd

/-- A class can be opened. -/
theorem Opens.not_mem_root (hopens : Opens s₀ c) (hf : Feasible document settings s₀) (hc : Dotless c) (hready : Ready shared)
    (hknown : AllKnown document settings (c :: rest) shared) :
    Tree.qualify c c ∉ (shared.scopes.table 0).map Symbol.localName := by
  intro hmem
  obtain ⟨symbol, hsymbol, hlocal⟩ := List.mem_map.1 hmem
  obtain ⟨home, h0, d, hd, rfl⟩ := hready.sound.copies _ hsymbol
  obtain ⟨hscope, hname⟩ := Tree.qualify_inj (hready.sound.dotless home h0 _ hd) hc hlocal
  have h := hknown home h0 d hd
  rw [hscope] at h
  cases h with
  | client hs hd _ => exact absurd (hs.symm.trans (hname.symm.trans hd)) (by decide)
  | component hs hd => exact hopens.2 hs (componentNames_eq hf ▸ hname ▸ hd)
  | ofClass hs _ _ => exact hs List.mem_cons_self
  | asked hs _ => exact hs List.mem_cons_self

/-- The module of a class is opened with two symbols that are known. -/
theorem Opened.orderly (hopened : Opened settings c shared s) (hfresh : c ∉ rest)
    (hknown : AllKnown document settings (c :: rest) shared) : Orderly document settings c rest s := by
  have hsince := hopened.since
  obtain ⟨d, htable, hlocal, -, hplace⟩ := hopened.table
  constructor
  case fresh => exact hfresh
  case name => rw [hsince.name, hsince.scope, get_begun, if_pos rfl]
  case others =>
    intro home h0 hne e he
    rw [hsince.scope] at hne
    rw [hsince.table h0 hne, table_begun] at he
    rw [hsince.name, get_begun, if_neg hne]
    exact hknown home h0 e he
  case own =>
    intro e he
    rw [htable, List.mem_cons, List.mem_singleton] at he
    cases he.resolve_left nofun
    exact .inl ⟨hlocal, hplace⟩
  case imports =>
    intro n source hi
    rw [htable, List.mem_cons, List.mem_singleton] at hi
    cases hi.resolve_right nofun
    exact .inl rfl

/-- What is known of the module of a class goes on when the module is done. -/
theorem Orderly.allKnown (h : Orderly document settings c rest s) : AllKnown document settings rest s.shared := by
  intro home h0 d hd
  by_cases hhome : home = s.draft.scope
  · subst hhome
    rw [h.name]
    rcases h.own d hd with ⟨hlocal, hplace⟩ | hasked
    · exact .ofClass h.fresh hlocal hplace
    · exact .asked h.fresh hasked
  · exact (h.others home h0 hhome d hd).mono

/-- **Where names are apart and values writable, a run for a document that allows for it comes to its end.** -/
theorem failure_none_of_apart {values : List (String × Node)} (hs : Settings.ofValues values = .ok settings)
    (hf : Feasible document settings s₀) (hapart : NamesApart document settings) (hwritable : Writable document) :
    (generate document settings).failure = none := by
  have hproceeds : Proceeds document settings s₀ (AllKnown document settings)
      (fun c rest _ _ s => Orderly document settings c rest s) (AskedIn document settings.defaultApiName)
      (fun value => ∃ text, Emit.literal value = .ok text) fun _ => False :=
    { rules := rules_orderly hapart
      needs := fun spec hspec schema wanted hneeds =>
        ⟨fun n place hasked => ⟨spec, hspec, rfl, schema, wanted, hneeds, hasked⟩, hwritable spec hspec schema wanted hneeds⟩
      first := allKnown_definitions hf _
      clash := fun hc _ hopens hready hknown hwhy _ =>
        hwhy.elim hopens.1 (hopens.not_mem_root hf hc hready hknown)
      start := fun hfresh hknown hopened => hopened.orderly hfresh hknown
      method := fun h hadd => h.of_since (since_addMethod hadd) (by cases hadd; exact fun _ => .inl)
      done := fun _ h => h.allKnown }
  cases hfailure : (generate document settings).failure with
  | none => rfl
  | some e => exact (hproceeds.failure hs hf e hfailure).elim

end Making
end TypedClient
