import TypedClient.Proofs.Making.Partition
/-!
# Printing — when a module can be printed

Two things can go wrong when a module is printed: that a file which it imports from has no path, and that the status of a
response which its methods test is unreadable.  The first does not happen where every module has its file (`Filed`); the second
is up to the operation alone (`Spec.Readable`, `text_iff_readable`).
-/
namespace TypedClient

open Codegen (Session)
open Emit (File Method Unwrapping)

/-! ## Methods -/

namespace Operation

/-- **Whether the statuses can be read** that the method of an operation tests. -/
def Spec.Readable (spec : Spec) : Prop :=
  ∀ responses, (spec.operation.get? "responses").bind Node.entries? = some responses →
    ∀ t ∈ (bodies responses).filterMap (unwrapping? (responses.map (·.1))), ∃ text, t.branch = .ok text

theorem exists_branches_iff : ∀ {unwrappings : List Unwrapping},
    (∃ text, Emit.branches unwrappings = .ok text) ↔ ∀ t ∈ unwrappings, ∃ text, t.branch = .ok text
  | [] => ⟨fun _ => nofun, fun _ => ⟨_, rfl⟩⟩
  | t :: rest => by
    rw [List.forall_mem_cons, ← exists_branches_iff, Emit.branches]
    cases t.branch with
    | error e => exact iff_of_false (not_exists_ok e) fun h => not_exists_ok e h.1
    | ok text =>
      dsimp only
      cases Emit.branches rest with
      | error e => exact iff_of_false (not_exists_ok e) fun h => not_exists_ok e h.2
      | ok more => exact iff_of_true ⟨_, rfl⟩ ⟨⟨text, rfl⟩, more, rfl⟩

theorem exists_text_iff {m : Method} :
    (∃ text, m.text = .ok text) ↔ ∀ t ∈ m.unwrappings, ∃ text, t.branch = .ok text := by
  rw [← exists_branches_iff, Method.text]
  cases Emit.branches m.unwrappings with
  | error e => exact iff_of_false (not_exists_ok e) (not_exists_ok e)
  | ok text => exact iff_of_true ⟨_, rfl⟩ ⟨text, rfl⟩

/-- **A method has a text when its operation is readable**, whatever the module held when it was made. -/
theorem text_iff_readable {spec : Spec} {s t : Session} {m : Method} (h : generate spec s = .ok m t) :
    (∃ text, m.text = .ok text) ↔ spec.Readable := by
  obtain ⟨found, u, u', hfound, hunwrappings⟩ := generate_eq_ok h
  rw [exists_text_iff, hunwrappings]
  cases hresponses : (spec.operation.get? "responses").bind Node.entries? with
  | some responses =>
    have hperm := responsesOf_unwrappings hresponses hfound
    constructor
    · intro hall responses' hr t ht
      cases hresponses.symm.trans hr
      exact hall t (hperm.mem_iff.2 ht)
    · exact fun hreadable t ht => hreadable responses hresponses t (hperm.mem_iff.1 ht)
  | none =>
    rw [responsesOf, hresponses] at hfound
    obtain ⟨_, v, -, hfound⟩ := bind_eq_ok.1 hfound
    obtain ⟨rfl, -⟩ := pure_eq_ok.1 hfound
    refine iff_of_true (fun t ht => ?_) fun responses hr => ?_
    · cases ht
    · cases hresponses.symm.trans hr

theorem exists_methodTexts_iff : ∀ {methods : List Method},
    (∃ texts, Emit.methodTexts methods = .ok texts) ↔ ∀ m ∈ methods, ∃ text, m.text = .ok text
  | [] => ⟨fun _ => nofun, fun _ => ⟨_, rfl⟩⟩
  | m :: rest => by
    rw [List.forall_mem_cons, ← exists_methodTexts_iff, Emit.methodTexts]
    cases m.text with
    | error e => exact iff_of_false (not_exists_ok e) fun h => not_exists_ok e h.1
    | ok text =>
      dsimp only
      cases Emit.methodTexts rest with
      | error e => exact iff_of_false (not_exists_ok e) fun h => not_exists_ok e h.2
      | ok more => exact iff_of_true ⟨_, rfl⟩ ⟨⟨text, rfl⟩, more, rfl⟩

end Operation

namespace Making

open Linking (World)
open Scope (Definition Symbol Table Tree)

variable {settings : Settings} {s s' : Session} {t t' : Tree}

/-! ## Files -/

/-- **Whether every module has a file.** -/
def Filed (t : Tree) : Prop :=
  ∀ id ≠ 0, id < t.scopes.length → ∃ file, (t.get id).path = some file ∧ file ≠ ""

theorem Filed.grown {added : Scope.Id → Table} (h : Filed t) (hg : Tree.Grown t t' added) : Filed t' := by
  intro id h0 hid
  rw [hg.path]
  exact h id h0 (hg.length ▸ hid)

theorem Filed.addScope (h : Filed t) (ht : t.Sound) {name path : String} (hpath : path ≠ "") :
    Filed (t.addScope 0 name (some path)).1 := by
  intro id h0 hid
  rw [ht.get_addScope]
  rw [t.length_addScope 0 name (some path)] at hid
  split
  · exact ⟨path, rfl, hpath⟩
  · rename_i hne
    exact h id h0 (Nat.lt_of_le_of_ne (Nat.le_of_lt_succ hid) hne)

/-- What the root holds comes out of a file. -/
theorem Filed.definedIn (h : Filed t) (ht : t.Sound) {d : Definition} (hd : .defined d ∈ t.table 0) :
    ∃ file, d.definedIn = some file ∧ file ≠ "" := by
  obtain ⟨id, h0, e, he, heq⟩ := ht.copies _ hd
  obtain ⟨file, hpath, hne⟩ := h id h0 (Tree.lt_of_mem he)
  cases heq
  exact ⟨file, (ht.file id h0 e he).trans hpath, hne⟩

theorem exists_specifier? (source : String) {target : String} (h : target ≠ "") :
    ∃ specifier, Emit.specifier? source target = some specifier := by
  unfold Emit.specifier?
  rw [if_neg h]
  exact ⟨_, rfl⟩

theorem exists_mapM {α β ε : Type} {f : α → Except ε β} {xs : List α} (h : ∀ x ∈ xs, ∃ y, f x = .ok y) :
    ∃ ys, xs.mapM f = .ok ys := by
  cases hm : xs.mapM f with
  | ok ys => exact ⟨ys, rfl⟩
  | error e =>
    obtain ⟨x, hx, he⟩ := Linking.mapM_eq_error hm
    obtain ⟨y, hy⟩ := h x hx
    exact nomatch hy.symm.trans he

/-- **The imports of a module can be written.** -/
theorem Filed.exists_moduleImports (h : Filed s.shared.scopes) (hfit : Fit s) (filename : String) :
    ∃ imports, Emit.moduleImports s.shared.scopes s.draft.scope filename = .ok imports := by
  have hall : ∀ i ∈ s.shared.scopes.imports s.draft.scope,
      ∃ pair, Emit.importOf s.shared.scopes s.draft.scope filename i.1 i.2 = .ok pair := by
    rintro ⟨name, source⟩ hi
    obtain ⟨d, hd, rfl⟩ := hfit.sound.provided _ hfit.isModule.1 name source (Tree.mem_imports.1 hi)
    obtain ⟨file, hfile, hne⟩ := h.definedIn hfit.sound hd
    obtain ⟨specifier, hspecifier⟩ := exists_specifier? filename hne
    obtain ⟨home, h0, e, he, heq⟩ := hfit.sound.copies _ hd
    cases heq
    have hsymbol : s.shared.scopes.symbol? s.draft.scope (e.within (s.shared.scopes.get home).name).localName =
        some (.defined (e.within (s.shared.scopes.get home).name)) := hfit.sound.symbol?_root hfit.isModule h0 he
    unfold Emit.importOf
    simp only [hsymbol, Option.bind_some, Symbol.definition?, hfile, hspecifier]
    exact ⟨_, rfl⟩
  obtain ⟨pairs, hpairs⟩ := exists_mapM hall
  unfold Emit.moduleImports
  rw [hpairs]
  exact ⟨_, rfl⟩

/-- **A module can be printed** when its methods have texts. -/
theorem Filed.exists_file (h : Filed s.shared.scopes) (hfit : Fit s)
    (hmethods : ∀ m ∈ s.draft.methods, ∃ text, m.text = .ok text) : ∃ file, s.file = .ok file := by
  obtain ⟨imports, himports⟩ := h.exists_moduleImports hfit s.draft.filename
  obtain ⟨texts, htexts⟩ := Operation.exists_methodTexts_iff.2 hmethods
  have hclass : ∃ text, Emit.classText s.draft.apiName s.draft.methods = .ok text := by
    unfold Emit.classText
    rw [htexts]
    split
    · exact ⟨_, rfl⟩
    · split
      · exact ⟨_, rfl⟩
      · exact ⟨_, rfl⟩
  obtain ⟨text, htext⟩ := hclass
  unfold Session.file Session.module
  rw [himports]
  dsimp only [Except.map]
  unfold Emit.Module.text
  rw [htext]
  exact ⟨_, rfl⟩

/-- **The index can be printed.** -/
theorem Filed.exists_indexFile (h : Filed t) (ht : t.Sound) (filename : String) :
    ∃ file, Emit.indexFile t 0 filename = .ok file := by
  have hall : ∀ d ∈ t.publicDefinitions 0, ∃ e, Emit.exportOf filename d = .ok e := by
    intro d hd
    obtain ⟨symbol, hsymbol, hpublic⟩ := List.mem_filterMap.1 hd
    cases symbol with
    | imported _ _ => cases hpublic
    | defined e =>
      dsimp only at hpublic
      split at hpublic
      · cases hpublic
        obtain ⟨file, hfile, hne⟩ := h.definedIn ht hsymbol
        obtain ⟨specifier, hspecifier⟩ := exists_specifier? filename hne
        unfold Emit.exportOf
        simp only [hfile, hspecifier]
        exact ⟨_, rfl⟩
      · cases hpublic
  obtain ⟨exports, hexports⟩ := exists_mapM hall
  unfold Emit.indexFile Emit.indexExports
  rw [hexports]
  exact ⟨_, rfl⟩

/-- **The modules that come before the classes have files.** -/
theorem filed_definitions {values : List (String × Node)} (hs : Settings.ofValues values = .ok settings) :
    Filed (World.definitions settings).session.shared.scopes := by
  obtain ⟨-, hclient, hdefinitions⟩ := Settings.ofValues_eq_ok hs
  intro id h0 hid
  match id, h0, hid with
  | 0, h0, _ => exact absurd rfl h0
  | 1, _, _ =>
    exact ⟨_, rfl, Settings.withDefault_of (q := (· ≠ "")) (by decide) Settings.readModule_ne_empty hclient⟩
  | 2, _, _ =>
    exact ⟨_, rfl, Settings.withDefault_of (q := (· ≠ "")) (by decide) Settings.readModule_ne_empty hdefinitions⟩
  | n + 3, _, hid => exact absurd hid (Nat.not_lt.2 (Nat.le_add_left 3 n))

end Making
end TypedClient
