import TypedClient.Proofs.Making.Partition
/-!
# TopLevel — what a module introduces

The names at the top of a module are those of its imports, of its typedefs and of its class.  No two are the same; each import
brings a definition of another module, under a name that stands in one of the module's types; and the module of the component
schemas, which is made before all others, imports nothing (`topLevel_exact`).
-/
namespace TypedClient

open Codegen (Session)
open Emit (TypeExpr File Method)
open Operation (Spec)
open Scope (Definition Symbol Table Tree)

/-! ## Names in types -/

/-- Whether a name stands in the return type of a method: one of the members has the text of a type with that name in it.  Of
members with the same text only one is kept, and it may be a word of the document that is spelled like the name. -/
def Emit.Method.Returns (m : Method) (name : String) : Prop :=
  ∃ members, m.returnType = .union members ∧ ∃ t ∈ members, ∃ t' : TypeExpr, t'.text = t.text ∧ name ∈ t'.names

/-- **Whether a module uses a name**: in a typedef, in the type of a parameter, or in a return type. -/
def Codegen.Session.Uses (s : Session) (name : String) : Prop :=
  (∃ t ∈ s.draft.typedefs, name ∈ t.body.names) ∨
    ∃ m ∈ s.draft.methods, (∃ a ∈ m.arguments, name ∈ a.type.names) ∨ m.Returns name

namespace Operation

/-- Of types with the same text one is kept. -/
theorem exists_kept (types kept : List TypeExpr) {t : TypeExpr} (h : t ∈ kept ∨ t ∈ types) :
    ∃ t' ∈ types.foldl (fun kept t => if kept.any (·.text == t.text) then kept else kept ++ [t]) kept,
      t.text = t'.text := by
  induction types generalizing kept t with
  | nil => exact ⟨t, h.resolve_right List.not_mem_nil, rfl⟩
  | cons first rest ih =>
    rw [List.foldl_cons]
    rcases h with hkept | hmem
    · refine ih _ (.inl ?_)
      split
      · exact hkept
      · exact List.mem_append_left _ hkept
    · rcases List.mem_cons.1 hmem with rfl | hrest
      · split
        · rename_i hany
          obtain ⟨t', ht', htext⟩ := List.any_eq_true.1 hany
          obtain ⟨u, hu, hsame⟩ := ih kept (.inl ht')
          exact ⟨u, hu, (beq_iff_eq.1 htext).symm.trans hsame⟩
        · exact ih _ (.inl (List.mem_append_right _ List.mem_cons_self))
      · exact ih _ (.inr hrest)

/-- **The names in the types of the bodies stand in the return type.** -/
theorem returns_of_mem {m : Method} {types : List TypeExpr} (hm : m.returnType = returnType types) {name : String}
    (h : name ∈ TypeExpr.namesAll types) : m.Returns name := by
  rw [Linking.namesAll_eq] at h
  obtain ⟨t, ht, hname⟩ := List.mem_flatMap.1 h
  have hne : types.isEmpty = false := by
    cases types with
    | nil => cases ht
    | cons _ _ => rfl
  obtain ⟨t', ht', htext⟩ := exists_kept types [] (.inr ht)
  rw [returnType, hne] at hm
  exact ⟨_, hm, t', ht', t, htext, hname⟩

end Operation

namespace Making

open Linking (World argumentNames)

variable {document : Node} {settings : Settings} {s s' : Session} {waiting owed : List String}

/-! ## Typedefs and imports -/

/-- **What is exact about a module in the making**: its typedefs, and what is waiting for one, have the names of different
definitions, none of them public; and an import brings a definition of another module, for the class to extend or for a type
that is placed, or still owed. -/
structure Exact (waiting owed : List String) (s : Session) : Prop where
  nodup : (s.draft.typedefs.map (·.name) ++ waiting).Nodup
  own : ∀ name ∈ s.draft.typedefs.map (·.name) ++ waiting, ∃ d, .defined d ∈ s.shared.scopes.table s.draft.scope ∧
    d.isPublic = false ∧ d.localName = name
  imports : ∀ name source, .imported name source ∈ s.shared.scopes.table s.draft.scope →
    (∃ home d, s.shared.scopes.Designates s.draft.scope name home d ∧ home ≠ s.draft.scope) ∧
      (source = Scope.clientSymbol ∨ name ∈ owed ∨ s.Uses name)

theorem Exact.mono {owed' : List String} (h : Exact waiting owed s) (hsub : owed ⊆ owed') : Exact waiting owed' s :=
  ⟨h.nodup, h.own, fun name source hi => (h.imports name source hi).imp_right (·.imp_right (·.imp_left (hsub ·)))⟩

/-- The definition of a name of the module is not imported under that name. -/
theorem home_ne_of_imported (hfit : Fit s) {name source : String} {home : Scope.Id} {d : Definition}
    (hd : s.shared.scopes.Designates s.draft.scope name home d)
    (hi : .imported name source ∈ s.shared.scopes.table s.draft.scope) : home ≠ s.draft.scope := by
  cases hd with
  | own hd => cases Table.eq_of_localName (hfit.sound.nodup _) hd hi rfl
  | foreign _ hne _ _ => exact hne

/-- **A definition is waiting for its typedef.** -/
theorem Exact.enter {name : String} {place : Option String} {d : Definition} (h : Exact waiting owed s) (hfit : Fit s)
    (hs : Codegen.define name place false s = .ok d s') : Exact (name :: waiting) owed s' := by
  obtain ⟨added, hg, -⟩ := (hfit.since_define hs).grown
  obtain ⟨t, rfl, hlocal, -, hprivate, htable, hfree⟩ := hfit.entered hs
  have hnew : name ∉ s.draft.typedefs.map (·.name) ++ waiting := by
    intro hm
    obtain ⟨e, he, -, heq⟩ := h.own name hm
    exact hfree (List.mem_map.2 ⟨_, he, heq⟩)
  constructor
  case nodup =>
    change (s.draft.typedefs.map (·.name) ++ name :: waiting).Nodup
    exact List.nodup_middle.2 (List.nodup_cons.2 ⟨hnew, h.nodup⟩)
  case own =>
    intro n hn
    change n ∈ s.draft.typedefs.map (·.name) ++ name :: waiting at hn
    rw [List.perm_middle.mem_iff, List.mem_cons] at hn
    rcases hn with rfl | hn
    · exact ⟨d, htable ▸ List.mem_append_right _ List.mem_cons_self, hprivate, hlocal⟩
    · obtain ⟨e, he, hrest⟩ := h.own n hn
      exact ⟨e, hg.mem he, hrest⟩
  case imports =>
    intro n source hi
    change _ ∈ t.table s.draft.scope at hi
    rw [htable, List.mem_append, List.mem_singleton] at hi
    obtain ⟨⟨home, e, he, hne⟩, hused⟩ := h.imports n source (hi.resolve_right nofun)
    exact ⟨⟨home, e, he.mono hg, hne⟩, hused⟩

/-- **A name that is used is owed**, whether it is imported for that or not. -/
theorem Exact.use {place name : String} {d : Definition} (h : Exact waiting owed s) (hfit : Fit s)
    (hp : s.definitionAt? place = some d) (hs : Codegen.nameOf d s = .ok name s') : Exact waiting (name :: owed) s' := by
  obtain ⟨t, home, e, -, -, himports, hdesignates, hs'⟩ := hfit.use hp hs
  obtain ⟨added, hg, -⟩ := himports.grown
  have hown : ∀ n ∈ s.draft.typedefs.map (·.name) ++ waiting, ∃ d, .defined d ∈ t.table s.draft.scope ∧
      d.isPublic = false ∧ d.localName = n := by
    intro n hn
    obtain ⟨d', hd', hrest⟩ := h.own n hn
    exact ⟨d', hg.mem hd', hrest⟩
  have himported : ∀ n source, .imported n source ∈ t.table s.draft.scope →
      (∃ home d, t.Designates s.draft.scope n home d ∧ home ≠ s.draft.scope) ∧
        (source = Scope.clientSymbol ∨ n ∈ name :: owed ∨ s.Uses n) := by
    intro n source hi
    rcases himports.imported hi with hold | ⟨-, rfl, -⟩
    · obtain ⟨⟨home, d', hd', hne⟩, hused⟩ := h.imports n source hold
      exact ⟨⟨home, d', hd'.mono hg, hne⟩, hused.imp_right (·.imp_left (List.mem_cons_of_mem _))⟩
    · have hfit₁ : Fit (s.withScopes t) := hfit.of_grown himports.sound hg rfl
      exact ⟨⟨home, e, hdesignates, home_ne_of_imported hfit₁ hdesignates hi⟩, .inr (.inl List.mem_cons_self)⟩
  rcases hs' with rfl | ⟨q, rfl⟩
  · exact ⟨h.nodup, hown, himported⟩
  · exact ⟨h.nodup, hown, himported⟩

/-- **A typedef uses the names in its body**, and is no longer waited for. -/
theorem Exact.addTypedef {t : Emit.Typedef} (h : Exact (t.name :: waiting) (t.body.names ++ owed) s)
    (hs : Codegen.addTypedef t s = .ok () s') : Exact waiting owed s' := by
  cases hs
  have hnames : (s.draft.typedefs ++ [t]).map (·.name) ++ waiting = s.draft.typedefs.map (·.name) ++ t.name :: waiting := by
    rw [List.map_append, List.append_assoc]
    rfl
  constructor
  case nodup => exact hnames ▸ h.nodup
  case own => exact hnames ▸ h.own
  case imports =>
    intro n source hi
    obtain ⟨hforeign, hclient | howed | htyped | hcalled⟩ := h.imports n source hi
    · exact ⟨hforeign, .inl hclient⟩
    · rcases List.mem_append.1 howed with hbody | howed
      · exact ⟨hforeign, .inr (.inr (.inl ⟨t, List.mem_append_right _ List.mem_cons_self, hbody⟩))⟩
      · exact ⟨hforeign, .inr (.inl howed)⟩
    · obtain ⟨u, hu, hname⟩ := htyped
      exact ⟨hforeign, .inr (.inr (.inl ⟨u, List.mem_append_left _ hu, hname⟩))⟩
    · exact ⟨hforeign, .inr (.inr (.inr hcalled))⟩

/-- **The single steps keep this.** -/
theorem rules_exact : FreeRules Exact where
  dotless h := h
  mono h hsub := h.mono hsub
  warn message h hs := by
    cases hs
    exact ⟨h.nodup, h.own, h.imports⟩
  enter hfit h _ _ hs := h.enter hfit hs
  clash _ _ _ _ _ := trivial
  use hfit h hp hs := h.use hfit hp hs
  finish h hs := h.addTypedef hs
  literal _ _ _ := trivial

/-- **A method uses the names in its types.** -/
theorem Exact.addMethod {m : Method} {types : List TypeExpr}
    (h : Exact waiting (argumentNames m.arguments ++ TypeExpr.namesAll types) s)
    (hm : m.returnType = Operation.returnType types) (hs : Codegen.addMethod m s = .ok () s') : Exact waiting [] s' := by
  cases hs
  refine ⟨h.nodup, h.own, fun name source hi => ?_⟩
  have hlast : m ∈ s.draft.methods ++ [m] := List.mem_append_right _ List.mem_cons_self
  obtain ⟨hforeign, hclient | howed | htyped | ⟨m', hm', hcalled⟩⟩ := h.imports name source hi
  · exact ⟨hforeign, .inl hclient⟩
  · rcases List.mem_append.1 howed with hargument | hreturn
    · obtain ⟨a, ha, hname⟩ := List.mem_flatMap.1 hargument
      exact ⟨hforeign, .inr (.inr (.inr ⟨m, hlast, .inl ⟨a, ha, hname⟩⟩))⟩
    · exact ⟨hforeign, .inr (.inr (.inr ⟨m, hlast, .inr (Operation.returns_of_mem hm hreturn)⟩))⟩
  · exact ⟨hforeign, .inr (.inr (.inl htyped))⟩
  · exact ⟨hforeign, .inr (.inr (.inr ⟨m', List.mem_append_left _ hm', hcalled⟩))⟩

/-! ## The first module -/

/-- **Whether there is nothing to import**: no other module has made anything of a schema. -/
structure Alone (s : Session) : Prop where
  others : ∀ home ≠ 0, home ≠ s.draft.scope → ∀ d, .defined d ∈ s.shared.scopes.table home → d.specPath = none
  nothing : ∀ name source, .imported name source ∉ s.shared.scopes.table s.draft.scope

theorem rules_alone : FreeRules fun _ _ s => Alone s where
  dotless h := h
  mono h _ := h
  warn message h hs := by
    cases hs
    exact ⟨h.others, h.nothing⟩
  enter {_ _ s s' name place d} hfit h _ _ hs := by
    have hsince := hfit.since_define hs
    obtain ⟨t, rfl, -, -, -, htable, -⟩ := hfit.entered hs
    refine ⟨fun home h0 hne d' hd => ?_, fun n source hi => ?_⟩
    · rw [hsince.table h0 hne] at hd
      exact h.others home h0 hne d' hd
    · change _ ∈ t.table s.draft.scope at hi
      rw [htable, List.mem_append, List.mem_singleton] at hi
      exact h.nothing n source (hi.resolve_right nofun)
  clash _ _ _ _ _ := trivial
  use {_ _ s s' place d name} hfit h hp hs := by
    obtain ⟨t, home, e, hfound, himport, -, -, hs'⟩ := hfit.use hp hs
    cases hfound with
    | foreign h0 hne hd hplace => exact nomatch (h.others home h0 hne e hd).symm.trans hplace
    | own hd hplace =>
      -- what is the module's own is not imported
      cases himport.symm.trans (hfit.sound.importSymbol_own hfit.isModule hd)
      rcases hs' with rfl | ⟨q, rfl⟩
      · exact ⟨h.others, h.nothing⟩
      · exact ⟨h.others, h.nothing⟩
  finish h hs := by
    cases hs
    exact ⟨h.others, h.nothing⟩
  literal _ _ _ := trivial

/-! ## The names of a module -/

/-- **The names that a module introduces**: those of its imports, of its typedefs, and of its class. -/
def introduced (m : Session) : List String :=
  m.imports.map (·.1) ++ (m.draft.typedefs.map (·.name) ++ m.draft.apiName.toList)

theorem imports_sublist (tree : Tree) (id : Scope.Id) :
    ((tree.imports id).map (·.1)).Sublist ((tree.table id).map Symbol.localName) := by
  unfold Tree.imports
  induction tree.table id with
  | nil => exact List.Sublist.refl _
  | cons symbol rest ih =>
    cases symbol with
    | defined d => exact ih.cons _
    | imported name source => exact ih.cons_cons _

/-- Whether the class of a module, if it has one, is a public definition of it. -/
def ClassDefined (m : Session) : Prop :=
  ∀ name, m.draft.apiName = some name → ∃ d, .defined d ∈ m.shared.scopes.table m.draft.scope ∧ d.isPublic = true ∧
    d.localName = name

/-- **No name is introduced twice**: the symbols behind the names are different ones. -/
theorem Exact.nodup_introduced {m : Session} (h : Exact [] [] m) (hfit : Fit m) (hclass : ClassDefined m) :
    (introduced m).Nodup := by
  have htable := hfit.sound.nodup m.draft.scope
  obtain ⟨hnodup, hown, -⟩ := h
  rw [List.append_nil] at hnodup hown
  have hmine : ∀ name ∈ m.draft.typedefs.map (·.name) ++ m.draft.apiName.toList,
      ∃ d, .defined d ∈ m.shared.scopes.table m.draft.scope ∧ d.localName = name := by
    intro name hname
    rcases List.mem_append.1 hname with hname | hname
    · obtain ⟨d, hd, -, hlocal⟩ := hown name hname
      exact ⟨d, hd, hlocal⟩
    · obtain ⟨d, hd, -, hlocal⟩ := hclass name (Option.mem_toList.1 hname)
      exact ⟨d, hd, hlocal⟩
  refine List.nodup_append'.2 ⟨(imports_sublist _ _).nodup htable, List.nodup_append'.2 ⟨hnodup, ?_, ?_⟩, ?_⟩
  · cases m.draft.apiName with
    | none => exact List.nodup_nil
    | some name => exact List.nodup_singleton name
  · -- a typedef is no public definition, and the class is one
    intro name htyped hname
    obtain ⟨d, hd, hprivate, hlocal⟩ := hown name htyped
    obtain ⟨c, hc, hpublic, hlocal'⟩ := hclass name (Option.mem_toList.1 hname)
    cases Table.eq_of_localName htable hd hc (hlocal.trans hlocal'.symm)
    rw [hprivate] at hpublic
    cases hpublic
  · intro name himport hname
    obtain ⟨⟨_, source⟩, hi, rfl⟩ := List.mem_map.1 himport
    obtain ⟨d, hd, hlocal⟩ := hmine _ hname
    cases Table.eq_of_localName htable hd (Tree.mem_imports.1 hi) hlocal

/-! ## The text of a module -/

theorem forall₂_of_mapM {α β ε : Type} {f : α → Except ε β} : ∀ {xs : List α} {ys : List β}, xs.mapM f = .ok ys →
    List.Forall₂ (fun x y => f x = .ok y) xs ys
  | [], ys, h => by
    rw [List.mapM_nil] at h
    cases h
    exact .nil
  | x :: rest, ys, h => by
    rw [List.mapM_cons] at h
    obtain ⟨y, hy, h⟩ := except_bind_eq_ok h
    obtain ⟨more, hmore, h⟩ := except_bind_eq_ok h
    cases h
    exact .cons hy (forall₂_of_mapM hmore)

/-- **How an import is written**: the name that its definition has in the module that made it, alone if this is the local name,
else with the local name behind `as`; and it is imported from the file of that module. -/
def Written (m : Session) (imported written : String × String) : Prop :=
  ∃ home d file, m.shared.scopes.Designates m.draft.scope imported.1 home d ∧ home ≠ m.draft.scope ∧
    d.definedIn = some file ∧ Emit.specifier? m.draft.filename file = some written.1 ∧
    written.2 = if d.localName = imported.1 then imported.1 else d.localName ++ " as " ++ imported.1

theorem written_of_importOf {m : Session} (hfit : Fit m) {name source : String} {pair : String × String}
    (hi : .imported name source ∈ m.shared.scopes.table m.draft.scope) {home : Scope.Id} {d : Definition}
    (hd : m.shared.scopes.Designates m.draft.scope name home d) (hne : home ≠ m.draft.scope)
    (h : Emit.importOf m.shared.scopes m.draft.scope m.draft.filename name source = .ok pair) :
    Written m (name, source) pair := by
  refine ⟨home, d, ?_⟩
  cases hd with
  | own _ => exact absurd rfl hne
  | foreign h0 _ hmem himport =>
    cases Table.eq_of_localName (hfit.sound.nodup _) hi himport rfl
    have hsymbol := hfit.sound.symbol?_root hfit.isModule h0 hmem
    unfold Emit.importOf at h
    simp only [hsymbol, Option.bind_some, Symbol.definition?] at h
    split at h
    · rename_i file hfile
      split at h
      · rename_i specifier hspecifier
        cases h
        refine ⟨file, .foreign h0 hne hmem himport, hne, hfile, hspecifier, ?_⟩
        have hshort : Text.afterLast '.' (Definition.within (m.shared.scopes.get home).name d).localName = d.localName :=
          Scope.afterLast_qualify (hfit.sound.dotless home h0 _ hmem) _
        dsimp only
        rw [hshort, Emit.importText]
        split
        · assumption
        · rfl
      · cases h
    · cases h

/-- **What a module introduces, and how its file shows it.** -/
structure TopLevel (i : Nat) (m : Session) (file : File) : Prop where
  nodup : (introduced m).Nodup
  /-- A definition is imported once at most. -/
  once : ∀ name source name' source', (name, source) ∈ m.imports → (name', source') ∈ m.imports →
    ∀ home d, m.shared.scopes.Designates m.draft.scope name home d → m.shared.scopes.Designates m.draft.scope name' home d →
    name = name' ∧ source = source'
  used : ∀ name source, (name, source) ∈ m.imports → source = Scope.clientSymbol ∨ m.Uses name
  definitions : i = 0 → m.imports = []
  /-- There is one statement for each file that something is imported from, with all imports from it. -/
  written : ∃ (pairs : List (String × String)) (specifiers : List String) (api : String),
    List.Forall₂ (Written m) m.imports pairs ∧ specifiers.Nodup ∧
    (∀ specifier, specifier ∈ specifiers ↔ specifier ∈ pairs.map (·.1)) ∧
    Emit.classText m.draft.apiName m.draft.methods = .ok api ∧
    file.contents = Emit.header ++
      String.join (specifiers.map fun specifier => "import \x7b " ++
        ", ".intercalate ((pairs.filter (·.1 == specifier)).map (·.2)) ++ " \x7d from '" ++ specifier ++ "';\n") ++
      String.join (m.draft.typedefs.map fun t => "\n" ++ t.declaration) ++ api

theorem Exact.written_of_mapM {m : Session} (h : Exact [] [] m) (hfit : Fit m) {pairs : List (String × String)}
    (hpairs : ((m.shared.scopes.imports m.draft.scope).mapM fun (localName, source) =>
      Emit.importOf m.shared.scopes m.draft.scope m.draft.filename localName source) = .ok pairs) :
    List.Forall₂ (Written m) m.imports pairs := by
  have hall := forall₂_of_mapM hpairs
  refine ((List.forall₂_and_left _ _).2 ⟨fun i hi => hi, hall⟩).imp fun i pair ⟨hi, hpair⟩ => ?_
  have hmem := Tree.mem_imports.1 hi
  obtain ⟨⟨home, d, hd, hne⟩, -⟩ := h.imports i.1 i.2 hmem
  exact written_of_importOf hfit hmem hd hne hpair

theorem Exact.topLevel {m : Session} (h : Exact [] [] m) (hfit : Fit m) (hclass : ClassDefined m) {file : File}
    (hfile : m.file = .ok file) {i : Nat} (hdefinitions : i = 0 → m.imports = []) : TopLevel i m file where
  nodup := h.nodup_introduced hfit hclass
  once name source name' source' hi hi' home d hd hd' := by
    have hne := home_ne_of_imported hfit hd (Tree.mem_imports.1 hi)
    have htable := hfit.sound.nodup m.draft.scope
    cases hd with
    | own _ => exact absurd rfl hne
    | foreign h0 _ _ himport =>
      cases hd' with
      | own _ => exact absurd rfl hne
      | foreign _ _ _ himport' =>
        cases Table.eq_of_localName htable (Tree.mem_imports.1 hi) himport rfl
        cases Table.eq_of_localName htable (Tree.mem_imports.1 hi') himport' rfl
        exact ⟨hfit.sound.once _ hfit.isModule.1 _ _ _ himport himport', rfl⟩
  used name source hi := (h.imports name source (Tree.mem_imports.1 hi)).2.imp_right (·.resolve_left List.not_mem_nil)
  definitions := hdefinitions
  written := by
    obtain ⟨-, groups, hgroups, htext⟩ := file_eq_ok hfile
    unfold Emit.moduleImports at hgroups
    cases hpairs : (m.shared.scopes.imports m.draft.scope).mapM fun (localName, source) =>
        Emit.importOf m.shared.scopes m.draft.scope m.draft.filename localName source with
    | error e =>
      rw [hpairs] at hgroups
      cases hgroups
    | ok pairs =>
      rw [hpairs] at hgroups
      cases hgroups
      unfold Emit.Module.text at htext
      cases hapi : Emit.classText m.draft.apiName m.draft.methods with
      | error e =>
        simp only [hapi] at htext
        cases htext
      | ok api =>
        simp only [hapi] at htext
        refine ⟨pairs, dropRepeats (pairs.map (·.1)), api, h.written_of_mapM hfit hpairs, nodup_dropRepeats _,
          fun _ => mem_dropRepeats, rfl, ?_⟩
        rw [List.map_map, Grouped.ofList_eq, List.map_map] at htext
        exact (Except.ok.inj htext).symm

/-! ## Whole runs -/

/-- At the beginning the client class is all there is, and it was made of no schema. -/
theorem alone_definitions (settings : Settings) : Alone (World.definitions settings).session where
  others home h0 hne d hd := by
    match home, h0, hne, hd with
    | 0, h0, _, _ => exact absurd rfl h0
    | 1, _, _, hd =>
      cases List.mem_singleton.1 hd
      rfl
    | 2, _, hne, _ => exact absurd rfl hne
    | _ + 3, _, _, hd => cases hd
  nothing name source hi := by cases hi

theorem exact_definitions (settings : Settings) : Exact [] [] (World.definitions settings).session where
  nodup := List.nodup_nil
  own := nofun
  imports name source hi := by cases hi

theorem topLevel_definitions (settings : Settings) (schemas : List (String × Node)) :
    Comes (fun _ s => (Exact [] [] s ∧ Fit s ∧ ClassDefined s ∧ s.imports = []) ∧ Ready s.shared) (fun _ _ => True)
      (Generate.generateTypedefs schemas (World.definitions settings).session) := by
  refine (generateTypedefs_comes _ (rules_exact.and rules_alone) ?_ (fit_definitions settings) (ready_definitions settings)
    ⟨exact_definitions settings, alone_definitions settings⟩).mono fun _ s ⟨hfit, hsince, hready, _, h, halone⟩ =>
      ⟨⟨h, hfit, ?_, ?_⟩, hready⟩
  · rintro key node schema - - waiting owed s - - ⟨h, halone⟩ -
    -- what is left keeps its name, and waits no more
    have hsub : (s.draft.typedefs.map (·.name) ++ waiting).Sublist
        (s.draft.typedefs.map (·.name) ++ Naming.sanitize key :: waiting) :=
      (List.sublist_cons_self _ _).append_left _
    exact ⟨⟨h.nodup.sublist hsub, fun name hname => h.own name (hsub.subset hname), h.imports⟩,
      halone.others, halone.nothing⟩
  · intro name hname
    rw [hsince.apiName] at hname
    cases hname
  · exact List.eq_nil_iff_forall_not_mem.2 fun i hi => halone.nothing i.1 i.2 (Tree.mem_imports.1 hi)

/-- A module is opened with nothing but the import of the client class, and its own class. -/
theorem Opened.exact {shared : Codegen.Workspace} {className : String} (hready : Ready shared)
    (h : Opened settings className shared s) : Exact [] [] s := by
  obtain ⟨d, hd, hlocal⟩ := ((hready.ready_begun settings className).since h.fit h.since).client
  obtain ⟨c, htable, -⟩ := h.table
  have hclient : .imported "Client" Scope.clientSymbol ∈ s.shared.scopes.table s.draft.scope := htable ▸ List.mem_cons_self
  -- what stands for the client class in the root was made in a module, and that is another one
  obtain ⟨home, h0, e, he, heq⟩ := h.fit.sound.copies _ hd
  cases heq
  have hsource : Tree.qualify (s.shared.scopes.get home).name e.localName = Scope.clientSymbol := hlocal
  have hdotless : Dotless e.localName := h.fit.sound.dotless home h0 _ he
  have hshort : e.localName = "Client" := by
    rw [← Scope.afterLast_qualify hdotless (s.shared.scopes.get home).name, hsource]
    decide
  have hne : home ≠ s.draft.scope := by
    rintro rfl
    cases Table.eq_of_localName (h.fit.sound.nodup _) he hclient hshort
  have htypedefs : s.draft.typedefs = [] := by
    rw [h.draft]
    rfl
  refine ⟨htypedefs ▸ List.nodup_nil, fun name hname => ?_, fun name source hi => ?_⟩
  · rw [htypedefs] at hname
    cases hname
  · rw [htable, List.mem_cons, List.mem_singleton] at hi
    cases hi.resolve_right nofun
    exact ⟨⟨home, e, .foreign h0 hne he (hsource.symm ▸ hclient), hne⟩, .inl rfl⟩

theorem topLevel_class {shared : Codegen.Workspace} (hready : Ready shared) {className : String} (hname : Dotless className)
    (specs : List Spec) :
    Comes (fun _ s => (Exact [] [] s ∧ Fit s ∧ ClassDefined s) ∧ Ready s.shared) (fun _ _ => True)
      (classWork className specs (begun settings className shared)) := by
  have hclass : FreeRules fun _ _ s => ∃ c, .defined c ∈ s.shared.scopes.table s.draft.scope ∧ c.isPublic = true ∧
      c.localName = className :=
    rules_of_since fun ⟨c, hc, hrest⟩ hsince => ⟨c, hsince.scope.symm ▸ hsince.mem hc, hrest⟩
  refine (classWork_comes _ (fun _ => rules_exact.and hclass) ?_ hready hname ?_ specs).mono
    fun _ s ⟨hfit, hsince, hready', h, hpublic⟩ => ⟨⟨h, hfit, fun name hname => ?_⟩, hready'⟩
  · rintro - spec s m types u u' hfit ⟨h, c, hc, hrest⟩ htypes hadd -
    have hsince := since_addMethod hadd
    exact ⟨h.addMethod htypes hadd, c, hsince.scope.symm ▸ hsince.mem hc, hrest⟩
  · intro s hopened
    obtain ⟨c, htable, hlocal, hpublic, -⟩ := hopened.table
    exact ⟨hopened.exact hready, c, htable ▸ List.mem_cons_of_mem _ List.mem_cons_self, hpublic, hlocal⟩
  · rw [hsince.apiName] at hname
    cases hname
    exact hpublic

/-- **Imports are exact, and no name is introduced twice**, in every module that is printed. -/
theorem topLevel_exact {values : List (String × Node)} (hs : Settings.ofValues values = .ok settings) (document : Node)
    {i : Nat} {m : Session} (hm : (generate document settings).modules[i]? = some m) :
    ∃ file ∈ (generate document settings).files, m.file = .ok file ∧ TopLevel i m file := by
  have hname := Settings.dotless_defaultApiName hs
  obtain ⟨hmade, -⟩ := generate_free settings document (fun _ => True)
    (fun s => Exact [] [] s ∧ Fit s ∧ ClassDefined s ∧ s.imports = []) (fun _ s => Exact [] [] s ∧ Fit s ∧ ClassDefined s)
    ((topLevel_definitions settings _).mono fun _ _ h => ⟨h.1, h.2, trivial⟩)
    fun className specs shared hmem hready _ =>
      (topLevel_class hready (Operation.dotless_group hname _ hmem) specs).mono fun _ _ h => ⟨h.1, h.2, trivial⟩
  obtain ⟨hcase, file, hfiles, hfile⟩ := hmade i m hm
  refine ⟨file, hfiles, hfile, ?_⟩
  rcases hcase with ⟨-, h, hfit, hclass, hnone⟩ | ⟨hi, group, -, h, hfit, hclass⟩
  · exact h.topLevel hfit hclass hfile fun _ => hnone
  · exact h.topLevel hfit hclass hfile fun h0 => absurd h0 hi

/-- One call that answers with clients, which are a schema of their own. -/
def clientList : Node :=
  let customer : Node := .map (some "#/components/schemas/Client") [("type", .str "object")]
  let answer : Node := .map none [("content", .map none [("application/json", .map none [("schema",
    .map none [("type", .str "array"), ("items", customer)])])])]
  .map (some "#") [("components", .map none [("schemas", .map none [("Client", customer)])]),
    ("paths", .map none [("/clients", .map none [("get", .map none [("responses", .map none [("200", answer)])])])])]

theorem clientList_topLevel : (generate clientList Linking.petSettings).modules.map introduced =
      [["Client"], ["Client", "Client_2", "DefaultApi"]] ∧
    ∃ m file, (generate clientList Linking.petSettings).modules[1]? = some m ∧ m.file = .ok file ∧ TopLevel 1 m file ∧
      Emit.moduleImports m.shared.scopes m.draft.scope m.draft.filename =
        .ok [⟨"../client", ["Client"]⟩, ⟨"../definitions", ["Client as Client_2"]⟩] := by
  refine ⟨by decide +kernel, ?_⟩
  have hlength : 1 < (generate clientList Linking.petSettings).modules.length := by decide +kernel
  have hm := List.getElem?_eq_getElem hlength
  obtain ⟨file, -, hfile, htop⟩ := topLevel_exact Linking.ofValues_petValues clientList hm
  have himports : ((generate clientList Linking.petSettings).modules[1]?.map fun m =>
      Emit.moduleImports m.shared.scopes m.draft.scope m.draft.filename) =
        some (.ok [⟨"../client", ["Client"]⟩, ⟨"../definitions", ["Client as Client_2"]⟩]) := by decide +kernel
  rw [hm] at himports
  exact ⟨_, file, hm, hfile, htop, Option.some.inj himports⟩

end Making
end TypedClient
