import TypedClient.Proofs.Scope.Edits
/-!
# Definitions — what definitions leave in the tables

A definition that goes well leaves one copy of itself in every scope around its own, under the name that the scope knows
it by, and the definitions of a table are these copies, one for every operation that made one (`definitions_accounted`).

One that reports a conflict leaves a copy in the scopes before the one in which its name is taken.  So it leaves the tables
as they were when its name is taken in its own scope, and only then (`define_conflict`); two scopes of one name under one
root are enough for the other case (`namesakes_traced`).
-/
namespace TypedClient
namespace Scope

/-! ## The definitions of a table -/

namespace Table

theorem mem_filterMap_definition? {table : Table} {d : Definition} :
    d ∈ table.filterMap Symbol.definition? ↔ .defined d ∈ table := by
  rw [List.mem_filterMap]
  constructor
  · rintro ⟨symbol, hmem, hd⟩
    cases symbol with
    | defined e =>
      cases hd
      exact hmem
    | imported => cases hd
  · exact fun hmem => ⟨.defined d, hmem, rfl⟩

theorem Tidy.nodup_definitions {table : Table} (h : table.Tidy) : (table.filterMap Symbol.definition?).Nodup := by
  refine List.Nodup.filterMap (fun a b d ha hb => ?_) h.names.of_map
  cases a with
  | imported => cases ha
  | defined =>
    cases b with
    | imported => cases hb
    | defined =>
      cases ha
      cases hb
      rfl

end Table

namespace Tree

/-! ## Conflicts -/

section Conflict

variable {t u : Tree} {history : List (Edit × Option Conflict)} {rootName : String} {path : Option String} {id : Id}
  {name : String} {place : Option String} {isPublic : Bool} {conflict : Conflict}

theorem nameIn_self (t : Tree) (id : Id) (name : String) : t.nameIn id id name = name := by
  simp [nameIn, outwards, dotted_nil]

/-- **What a definition leaves that reports a conflict.**  Some scope around its own, or its own, is the nearest one that has
the name already; the scopes before that one have got the definition, and nothing else has changed.  So all tables are as
before just when the name is taken in the definition's own scope. -/
theorem define_conflict (hrun : Edits (planted rootName path) history t) (hid : id < t.scopes.length)
    (hd : t.define id name place isPublic = (u, .error conflict)) :
    (∃ below outer above, t.outwards id = below ++ outer :: above ∧ conflict = ⟨t.nameIn outer id name, (t.get outer).name⟩ ∧
      t.taken outer (t.nameIn outer id name) = true ∧ (∀ inner ∈ below, t.taken inner (t.nameIn inner id name) = false) ∧
      ∀ j, u.table j = t.table j ++ if j ∈ below
        then [.defined { t.defining id name place isPublic with localName := t.nameIn j id name }] else []) ∧
    u.scopes.length = t.scopes.length ∧ ((∀ j, u.table j = t.table j) ↔ t.taken id name = true) := by
  have hentered : Entered t (t.outwards id) (t.defining id name place isPublic) _ :=
    (hrun.rooted rooted_planted).define_entered hid
  have happly : (Edit.define id name place isPublic).apply t = (u, some conflict) := by
    rw [Edit.apply, hd]
  rw [happly] at hentered
  cases hentered with
  | blocked below outer above hchain hfree htaken hg =>
    refine ⟨⟨below, outer, above, hchain, rfl, htaken, fun inner hinner => Bool.not_eq_true _ ▸ hfree inner hinner,
      hg.table⟩, hg.length, ?_⟩
    have hself : t.nameIn id id name = name := t.nameIn_self id name
    -- the nearest scope that has the name is the definition's own, or one around it
    cases below with
    | nil =>
      obtain ⟨rfl, -⟩ := List.cons.inj hchain
      refine ⟨fun _ => hself ▸ htaken, fun _ j => ?_⟩
      rw [hg.table]
      exact List.append_nil _
    | cons inner below =>
      obtain ⟨rfl, -⟩ := List.cons.inj hchain
      constructor
      · intro hsame
        have hown := hsame id
        rw [hg.table, copies, if_pos List.mem_cons_self] at hown
        simp at hown
      · intro htaken'
        have hname : t.taken id (t.nameIn id id name) = true := by rwa [hself]
        exact absurd hname (hfree id List.mem_cons_self)

/-- Two scopes of one name, and a name in the first of them. -/
def namesakes : Tree :=
  ((((planted "root" none).addScope 0 "a" none).1.addScope 0 "a" none).1.define 1 "X" none false).1

theorem edits_namesakes : Edits (planted "root" none)
    [(.addScope 0 "a" none, none), (.addScope 0 "a" none, none), (.define 1 "X" none false, none)] namesakes :=
  .next (by decide) (.next (by decide) (.next (by decide) .done))

/-- A name that the scope has is refused, and the tables are as before. -/
theorem namesakes_untouched : (namesakes.define 1 "X" none false).2 = .error ⟨"X", "a"⟩ ∧
    ∀ j, (namesakes.define 1 "X" none false).1.table j = namesakes.table j := by
  have hd : namesakes.define 1 "X" none false = ((namesakes.define 1 "X" none false).1, .error ⟨"X", "a"⟩) := by
    rfl
  exact ⟨rfl, (define_conflict edits_namesakes (by decide) hd).2.2.2 (by decide +kernel)⟩

/-- The root refuses `a.X`, which it has from the other scope, and the scope itself keeps the definition. -/
theorem namesakes_traced :
    Edits (planted "root" none)
        [(.addScope 0 "a" none, none), (.addScope 0 "a" none, none), (.define 1 "X" none false, none)] namesakes ∧
      (namesakes.define 2 "X" none false).2 = .error ⟨"a.X", "root"⟩ ∧
      (namesakes.define 2 "X" none false).1.table 2 ≠ namesakes.table 2 :=
  ⟨edits_namesakes, rfl, by decide +kernel⟩

end Conflict

/-! ## Copies -/

/-- What an operation leaves of a definition in a scope, if it reports no conflict. -/
def leftIn (t : Tree) (outer : Id) : Edit → Option Definition
  | .define id name place isPublic =>
    if outer ∈ t.outwards id then some { t.defining id name place isPublic with localName := t.nameIn outer id name }
    else none
  | _ => none

section Copies

variable {t t' u : Tree} {history : List (Edit × Option Conflict)} {edit : Edit} {outer id : Id} {name : String}
  {place : Option String} {isPublic : Bool}

theorem leftIn_eq_some {d : Definition} : t.leftIn outer edit = some d ↔ ∃ id name place isPublic,
    edit = .define id name place isPublic ∧ outer ∈ t.outwards id ∧
      d = { t.defining id name place isPublic with localName := t.nameIn outer id name } := by
  constructor
  · intro h
    cases edit with
    | define id name place isPublic =>
      unfold leftIn at h
      dsimp only at h
      by_cases houter : outer ∈ t.outwards id
      · rw [if_pos houter] at h
        exact ⟨id, name, place, isPublic, rfl, houter, (Option.some.inj h).symm⟩
      · rw [if_neg houter] at h
        cases h
    | addScope => cases h
    | importSymbol => cases h
  · rintro ⟨id, name, place, isPublic, rfl, houter, rfl⟩
    exact if_pos houter

/-! ### What stays when the tree grows -/

theorem Extended.nameIn (h : Extended t t') (hr : t.Rooted) (hid : id < t.scopes.length) :
    t'.nameIn outer id name = t.nameIn outer id name := by
  unfold Tree.nameIn
  rw [h.outwards hid]
  exact dotted_congr fun i hi => h.name i (hr.lt_of_mem hid i ((List.takeWhile_sublist _).subset hi))

theorem Extended.defining (h : Extended t t') (hr : t.Rooted) (hr' : t'.Rooted) (hid : id < t.scopes.length) :
    t'.defining id name place isPublic = t.defining id name place isPublic := by
  unfold Tree.defining
  rw [h.path id hid, hr'.globalName_eq (Nat.lt_of_lt_of_le hid h.length), hr.globalName_eq hid, h.nameIn hr hid]

theorem Extended.leftIn (h : Extended t t') (hr : t.Rooted) (hr' : t'.Rooted) (hscope : edit.scope < t.scopes.length) :
    t'.leftIn outer edit = t.leftIn outer edit := by
  cases edit with
  | addScope parent name path => rfl
  | define id name place isPublic =>
    have hid : id < t.scopes.length := hscope
    unfold Tree.leftIn
    dsimp only
    rw [h.outwards hid, h.defining hr hr' hid, h.nameIn hr hid]
  | importSymbol id source wanted => rfl

/-! ### One operation and many -/

theorem definition?_copies {chain : List Id} {d : Definition} :
    (t.copies chain d chain outer).filterMap Symbol.definition? =
      (if outer ∈ chain then some (t.copyIn chain d outer) else none).toList := by
  unfold copies
  split <;> rfl

/-- **An operation without conflict leaves a table its copy, and no other definition.** -/
theorem Rooted.definitions_apply (h : t.Rooted) (hscope : edit.scope < t.scopes.length) (hok : (edit.apply t).2 = none)
    (outer : Id) : ((edit.apply t).1.table outer).filterMap Symbol.definition? =
      (t.table outer).filterMap Symbol.definition? ++ (t.leftIn outer edit).toList := by
  cases edit with
  | addScope parent name path =>
    have htable : ((Edit.addScope parent name path).apply t).1.table outer = t.table outer :=
      t.table_addScope parent name path outer
    rw [htable]
    exact (List.append_nil _).symm
  | define id name place isPublic =>
    have hentered : Entered t (t.outwards id) (t.defining id name place isPublic) _ := h.define_entered hscope
    generalize (Edit.define id name place isPublic).apply t = r at hentered hok ⊢
    cases hentered with
    | through hfree hg =>
      rw [hg.table, List.filterMap_append, definition?_copies]
      rfl
    | blocked => cases hok
  | importSymbol id source wanted =>
    have hid : id < t.scopes.length := hscope
    have hsame : (t.leftIn outer (.importSymbol id source wanted)).toList = [] := rfl
    rw [hsame, List.append_nil]
    rcases t.importSymbol_cases id source wanted with ⟨symbol, -, heq⟩ | ⟨-, ⟨name, -, heq⟩ | ⟨conflict, heq⟩⟩
    · rw [Edit.apply, heq]
    · rw [Edit.apply, heq]
      dsimp only
      rw [(grown_enter hid _).table, List.filterMap_append]
      split <;> simp [Symbol.definition?]
    · rw [Edit.apply, heq]

/-- **The definitions of a table are the copies that the operations left**, in their order. -/
theorem Edits.definitions_eq (hrun : Edits t history u) (h : t.Rooted) (hsmooth : ∀ step ∈ history, step.2 = none)
    (outer : Id) : (u.table outer).filterMap Symbol.definition? =
      (t.table outer).filterMap Symbol.definition? ++ history.filterMap fun step => u.leftIn outer step.1 := by
  induction hrun with
  | done => simp
  | @next t u edit rest hscope hrest ih =>
    obtain ⟨hok, hsmooth⟩ := List.forall_mem_cons.1 hsmooth
    obtain ⟨hrooted, hextended, -⟩ := h.apply hscope
    -- what the operation left can be told from the tree at the end as well
    have hleft : u.leftIn outer edit = t.leftIn outer edit :=
      (hextended.trans (hrest.extended hrooted)).leftIn h (hrest.rooted hrooted) hscope
    rw [ih hrooted hsmooth, h.definitions_apply hscope hok, List.append_assoc, List.filterMap_cons, hleft]
    cases t.leftIn outer edit <;> rfl

/-- A run stops between any two of its operations. -/
theorem Edits.split {before behind : List (Edit × Option Conflict)} {step : Edit × Option Conflict}
    (hrun : Edits t (before ++ step :: behind) u) :
    ∃ v, Edits t before v ∧ step.1.scope < v.scopes.length ∧ step.2 = (step.1.apply v).2 ∧
      Edits (step.1.apply v).1 behind u := by
  induction before generalizing t with
  | nil =>
    cases hrun with
    | next hscope hrest => exact ⟨t, .done, hscope, rfl, hrest⟩
  | cons first before ih =>
    cases hrun with
    | next hscope hrest =>
      obtain ⟨v, hbefore, hv⟩ := ih hrest
      exact ⟨v, .next hscope hbefore, hv⟩

theorem define_of_apply (hok : ((Edit.define id name place isPublic).apply t).2 = none) :
    t.define id name place isPublic =
      (((Edit.define id name place isPublic).apply t).1, .ok (t.defining id name place isPublic)) := by
  rw [define_eq] at hok ⊢
  unfold defining at hok ⊢
  unfold define
  dsimp only
  generalize t.enterOutwards _ _ = r at hok ⊢
  obtain ⟨t', conflict⟩ := r
  cases hok
  rfl

/-- Two operations of a run that leave one and the same are one. -/
theorem index_unique {α β : Type} {f : α → Option β} {l : List α} (h : (l.filterMap f).Nodup) {i j : Nat} {a b : α} {e : β}
    (hi : l[i]? = some a) (hj : l[j]? = some b) (ha : f a = some e) (hb : f b = some e) : i = j := by
  have hpair := List.pairwise_iff_getElem.1 (List.pairwise_filterMap.1 h)
  obtain ⟨hil, rfl⟩ := List.getElem?_eq_some_iff.1 hi
  obtain ⟨hjl, rfl⟩ := List.getElem?_eq_some_iff.1 hj
  rcases Nat.lt_trichotomy i j with hlt | heq | hlt
  · exact absurd rfl (hpair i j hil hjl hlt e ha e hb)
  · exact heq
  · exact absurd rfl (hpair j i hjl hil hlt e hb e ha)

/-- **Qualified names are consistent through the whole tree.**  In a run without conflicts every definition is in its scope
and in all around it, the same but for its name, which is that of the scopes on the way and its own; in the root that is
its qualified name, the one that a public definition carries.  And every definition of a table comes from one such operation,
and from one only, in that scope or in one inside it. -/
theorem definitions_accounted {rootName : String} {path : Option String} (hrun : Edits (planted rootName path) history t)
    (hsmooth : ∀ step ∈ history, step.2 = none) :
    (∀ {before behind id name place isPublic}, history = before ++ (.define id name place isPublic, none) :: behind →
      ∃ u v d, Edits (planted rootName path) before u ∧ u.define id name place isPublic = (v, .ok d) ∧ Edits v behind t ∧
        d.localName = name ∧ d.definedIn = (t.get id).path ∧ d.specPath = place ∧ d.isPublic = isPublic ∧
        (∀ outer ∈ t.outwards id, .defined { d with localName := t.nameIn outer id name } ∈ t.table outer) ∧
        0 ∈ t.outwards id ∧ t.nameIn 0 id name = t.globalName id name ∧
        (isPublic = true → d.globalName = some (t.globalName id name))) ∧
    (∀ {outer d}, .defined d ∈ t.table outer → ∃! k : Nat, ∃ id name place isPublic,
      history[k]? = some (Edit.define id name place isPublic, none) ∧ outer ∈ t.outwards id ∧
        d = { t.defining id name place isPublic with localName := t.nameIn outer id name }) := by
  have hrooted := hrun.rooted rooted_planted
  have hcopies : ∀ outer, (t.table outer).filterMap Symbol.definition? =
      history.filterMap fun step => t.leftIn outer step.1 := fun outer => by
    rw [hrun.definitions_eq rooted_planted hsmooth, table_planted]
    rfl
  constructor
  · intro before behind id name place isPublic hsplit
    obtain ⟨u, hbefore, hscope, hok, hbehind⟩ := (hsplit ▸ hrun).split
    have hid : id < u.scopes.length := hscope
    have hu := hbefore.rooted rooted_planted
    obtain ⟨hv, hgrown, -⟩ := hu.apply hscope
    have hextended : Extended u t := hgrown.trans (hbehind.extended hv)
    have hd : u.defining id name place isPublic = t.defining id name place isPublic :=
      (hextended.defining hu hrooted hid).symm
    have hroot := hrooted.globalName_eq (Nat.lt_of_lt_of_le hid hextended.length) name
    obtain ⟨inner, hinner⟩ := hrooted.outwards_eq_concat (Nat.lt_of_lt_of_le hid hextended.length)
    refine ⟨u, _, t.defining id name place isPublic, hbefore, hd ▸ define_of_apply hok.symm, hbehind, rfl, rfl, rfl, rfl,
      fun outer houter => ?_, by rw [hinner]; simp, hroot.symm, fun hpublic => if_pos hpublic⟩
    rw [← Table.mem_filterMap_definition?, hcopies, List.mem_filterMap]
    exact ⟨(.define id name place isPublic, none), hsplit ▸ by simp, if_pos houter⟩
  · intro outer d hd
    -- no table has a definition twice, so no two operations leave the same one
    have hnodup : (history.filterMap fun step => t.leftIn outer step.1).Nodup :=
      hcopies outer ▸ (hrun.tidy_planted outer).nodup_definitions
    rw [← Table.mem_filterMap_definition?, hcopies, List.mem_filterMap] at hd
    obtain ⟨⟨edit, conflict⟩, hstep, hleft⟩ := hd
    obtain ⟨k, hk⟩ := List.mem_iff_getElem?.1 hstep
    cases hsmooth _ hstep
    obtain ⟨id, name, place, isPublic, rfl, houter, rfl⟩ := leftIn_eq_some.1 hleft
    refine ⟨k, ⟨id, name, place, isPublic, hk, houter, rfl⟩, ?_⟩
    rintro j ⟨id', name', place', isPublic', hj, houter', heq⟩
    exact index_unique hnodup hj hk (leftIn_eq_some.2 ⟨_, _, _, _, rfl, houter', heq⟩) hleft

/-- A public definition two scopes inside the root. -/
def nested : Tree :=
  ((((planted "root" none).addScope 0 "pkg" none).1.addScope 1 "mod" (some "mod.ts")).1.define 2 "Widget" (some "#/Widget")
    true).1

theorem nested_accounted :
    .defined ⟨"pkg.mod.Widget", some "mod.ts", some "#/Widget", true, some "pkg.mod.Widget"⟩ ∈ nested.table 0 := by
  have hrun : Edits (planted "root" none) [(.addScope 0 "pkg" none, none), (.addScope 1 "mod" (some "mod.ts"), none),
      (.define 2 "Widget" (some "#/Widget") true, none)] nested :=
    .next (by decide) (.next (by decide) (.next (by decide) .done))
  obtain ⟨hforth, -⟩ := definitions_accounted hrun (by decide)
  obtain ⟨u, v, d, -, -, -, -, hfile, hplace, hpublic, hcopies, hroot, hname, hglobal⟩ :=
    @hforth [(.addScope 0 "pkg" none, none), (.addScope 1 "mod" (some "mod.ts"), none)] [] 2 "Widget" _ _ rfl
  have hqualified : nested.globalName 2 "Widget" = "pkg.mod.Widget" := by decide +kernel
  have hcopy := hcopies 0 hroot
  rw [hname, hqualified, hfile, hplace, hpublic, hglobal rfl, hqualified] at hcopy
  exact hcopy

end Copies
end Tree
end Scope
end TypedClient
