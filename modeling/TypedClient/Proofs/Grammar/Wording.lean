import TypedClient.Proofs.Grammar.Literals
import TypedClient.Proofs.Linking.Components
/-!
# Wording — names that can stand in types

A type names typedefs by their names in the module.  These are given to typedefs, or taken from the last part of a qualified
name, maybe with a number behind it; so they can stand in a type as long as the names of all scopes can (`Worded`), which no
step changes (`Makes`).
-/
namespace TypedClient

open Codegen (Gen Session)
open Emit (Typedef TypedefBody)
open Scope (Definition Record Symbol Table Tree)

namespace Grammar

/-! ## Names in scope -/

/-- Whether a name can stand in a type, and what follows its last dot, too. -/
def Proper (name : String) : Prop := Atomic name ∧ Text.afterLast '.' name ≠ ""

instance (name : String) : Decidable (Proper name) := inferInstanceAs (Decidable (_ ∧ _))

/-- Whether the names of a scope can stand in types. -/
def Spelled (r : Record) : Prop := Atomic r.name ∧ ∀ symbol ∈ r.table, Proper symbol.localName

instance (r : Record) : Decidable (Spelled r) :=
  inferInstanceAs (Decidable (_ ∧ ∀ symbol ∈ r.table, Proper symbol.localName))

/-- **Whether the names of all scopes can stand in types.** -/
def Worded (t : Tree) : Prop := ∀ r ∈ t.scopes, Spelled r

instance (t : Tree) : Decidable (Worded t) := inferInstanceAs (Decidable (∀ r ∈ t.scopes, Spelled r))

variable {t : Tree} {id : Scope.Id} {symbol : Symbol} {name : String} {d : Definition}

theorem Proper.isAtom (h : Proper name) : IsAtom name := by
  refine ⟨h.1.kept, ?_⟩
  rintro rfl
  exact h.2 (by decide)

theorem proper_of_dotless (hatomic : Atomic name) (hdotless : Dotless name) (hne : name ≠ "") : Proper name := by
  refine ⟨hatomic, ?_⟩
  rw [Scope.afterLast_of_dotless hdotless]
  exact hne

theorem Proper.qualify {scope : String} (hscope : Atomic scope) (h : Proper name) : Proper (Tree.qualify scope name) := by
  refine ⟨(hscope.append (by decide)).append h.1, ?_⟩
  rw [Scope.afterLast_qualify_eq]
  exact h.2

theorem Proper.freeName (table : Table) (h : Proper name) : Proper (table.freeName (Text.afterLast '.' name)) := by
  have hatomic : Atomic (Text.afterLast '.' name) := fun c hc => h.1 c (Scope.mem_afterLast hc).1
  have hdotless : Dotless (Text.afterLast '.' name) := fun hdot => (Scope.mem_afterLast hdot).2 rfl
  obtain ⟨n, hn⟩ := table.exists_freeName_eq_candidate (Text.afterLast '.' name)
  refine proper_of_dotless ?_ (table.dotless_freeName hdotless) ?_
  · rw [hn]
    unfold Table.candidate
    split
    · exact hatomic
    · exact (hatomic.append (by decide)).append (isAtomChar_of_mem_repr _)
  · rw [hn]
    unfold Table.candidate
    split
    · exact h.2
    · exact fun hempty => h.2 (String.append_eq_empty_iff.1 (String.append_eq_empty_iff.1 hempty).1).1

/-- Whether a name may be given to a typedef. -/
structure IsName (name : String) : Prop where
  plain : Naming.Plain name
  ne_empty : name ≠ ""

theorem IsName.proper (h : IsName name) : Proper name :=
  proper_of_dotless (atomic_of_plain h.plain) h.plain.dotless h.ne_empty

theorem IsName.append {tail : String} (h : IsName name) (htail : Naming.Plain tail) : IsName (name ++ tail) :=
  ⟨h.plain.append htail, fun hempty => h.ne_empty (String.append_eq_empty_iff.1 hempty).1⟩

namespace Worded

theorem get (h : Worded t) (id : Scope.Id) : Spelled (t.get id) := by
  unfold Scope.Tree.get
  cases hr : t.scopes[id]? with
  | none => exact ⟨by decide, nofun⟩
  | some r => exact h r (List.mem_of_getElem? hr)

theorem proper (h : Worded t) (hs : symbol ∈ t.table id) : Proper symbol.localName :=
  (h.get id).2 symbol hs

theorem enter (h : Worded t) (hs : Proper symbol.localName) : Worded (t.enter id symbol) := by
  intro r hr
  obtain ⟨i, hi⟩ := List.mem_iff_getElem?.1 hr
  unfold Tree.enter at hi
  rw [List.getElem?_modify] at hi
  obtain ⟨r', hr', rfl⟩ := Option.map_eq_some_iff.1 hi
  have hspelled := h r' (List.mem_of_getElem? hr')
  split
  · refine ⟨hspelled.1, fun symbol' hs' => ?_⟩
    rcases List.mem_append.1 hs' with hs' | hs'
    · exact hspelled.2 symbol' hs'
    · rw [List.mem_singleton.1 hs']
      exact hs
  · exact hspelled

theorem enterOutwards : ∀ (ids : List Scope.Id) {t : Tree} {d : Definition}, Worded t → Proper d.localName →
    Worded (t.enterOutwards ids d).1
  | [], _, _, h, _ => h
  | id :: outer, t, d, h, hd => by
    unfold Tree.enterOutwards
    split
    · exact h
    · exact enterOutwards outer (h.enter hd) (Proper.qualify (h.get id).1 hd)

/-- **A definition leaves all names such that they can stand in types.** -/
theorem define (h : Worded t) (hname : Proper name) (place : Option String) (isPublic : Bool) :
    Worded (t.define id name place isPublic).1 := by
  have hentered := enterOutwards (t.outwards id) h
    (d := ⟨name, (t.get id).path, place, isPublic, if isPublic then some (t.globalName id name) else none⟩) hname
  unfold Tree.define
  dsimp only
  generalize t.enterOutwards (t.outwards id) _ = result at hentered
  obtain ⟨t', _ | c⟩ := result
  · exact hentered
  · exact hentered

/-- **So does an import**, whose name in the module can stand in a type. -/
theorem importSymbol {source : String} {t' : Tree} (h : Worded t) (hsource : Proper source)
    (ht : t.importSymbol id source none = (t', .ok name)) : Worded t' ∧ Proper name := by
  unfold Tree.importSymbol at ht
  split at ht
  · rename_i symbol hs
    cases ht
    exact ⟨h, h.proper (List.mem_of_find?_eq_some hs)⟩
  · cases ht
    have hshort := hsource.freeName (t.table id)
    exact ⟨h.enter hshort, hshort⟩

theorem definitionAt? {s : Session} {place : String} (h : Worded s.shared.scopes) (hd : s.definitionAt? place = some d) :
    Proper d.localName := by
  unfold Session.definitionAt? at hd
  obtain ⟨symbol, hfind, hsymbol⟩ := Option.bind_eq_some_iff.1 hd
  obtain ⟨i, -, hi⟩ := List.exists_of_findSome?_eq_some hfind
  have hproper := h.proper (List.mem_of_find?_eq_some hi)
  cases symbol with
  | defined e =>
    cases hsymbol
    exact hproper
  | imported _ _ => cases hsymbol

end Worded

/-! ## What is made of schemas -/

variable {α β : Type} {good : α → Prop} {good' : β → Prop}

/-- **Whether a computation makes something good** where the names of all scopes can stand in types, and leaves them so. -/
def Makes (good : α → Prop) (m : Gen α) : Prop :=
  ∀ s a s', Worded s.shared.scopes → m s = .ok a s' → Worded s'.shared.scopes ∧ good a

namespace Makes

theorem pure {a : α} (h : good a) : Makes good (pure a) := by
  intro s b s' hs hb
  obtain ⟨rfl, rfl⟩ := pure_eq_ok.1 hb
  exact ⟨hs, h⟩

theorem bind {m : Gen α} {k : α → Gen β} (hm : Makes good m) (hk : ∀ a, good a → Makes good' (k a)) :
    Makes good' (m >>= k) := by
  intro s b s' hs hb
  obtain ⟨a, u, ha, hb⟩ := bind_eq_ok.1 hb
  obtain ⟨hu, hgood⟩ := hm s a u hs ha
  exact hk a hgood u b s' hu hb

theorem mono {good'' : α → Prop} {m : Gen α} (hm : Makes good m) (h : ∀ a, good a → good'' a) : Makes good'' m :=
  fun s a s' hs ha => (hm s a s' hs ha).imp_right (h a)

theorem of_scopes {m : Gen α} (h : ∀ s a s', m s = .ok a s' → s'.shared.scopes = s.shared.scopes) :
    Makes (fun _ => True) m :=
  fun s a s' hs ha => ⟨h s a s' ha ▸ hs, trivial⟩

theorem throw (e : GenerateError) : Makes good (throw e : Gen α) :=
  fun _ _ _ _ h => absurd h throw_ne_ok

theorem mapM {γ : Type} {f : γ → Gen α} : ∀ {xs : List γ}, (∀ x ∈ xs, Makes good (f x)) →
    Makes (fun as => (∀ a ∈ as, good a) ∧ (xs ≠ [] → as ≠ [])) (xs.mapM f)
  | [], _ => by
    rw [List.mapM_nil]
    exact pure ⟨nofun, fun h => absurd rfl h⟩
  | x :: xs, h => by
    rw [List.mapM_cons]
    refine bind (h x List.mem_cons_self) fun a ha => bind (mapM fun y hy => h y (List.mem_cons_of_mem _ hy)) fun as has => ?_
    refine pure ⟨fun b hb => ?_, fun _ => List.cons_ne_nil _ _⟩
    rcases List.mem_cons.1 hb with rfl | hb
    · exact ha
    · exact has.1 b hb

end Makes

theorem makes_warn (message : String) : Makes (fun _ => True) (Codegen.warn message) :=
  .of_scopes fun s a s' h => by cases h; rfl

theorem makes_addTypedef (t : Typedef) : Makes (fun _ => True) (Codegen.addTypedef t) :=
  .of_scopes fun s a s' h => by cases h; rfl

theorem makes_define (h : Proper name) (place : Option String) (isPublic : Bool) :
    Makes (fun _ => True) (Codegen.define name place isPublic) := by
  intro s d s' hs hd
  obtain ⟨t, ht, rfl⟩ := Codegen.define_eq_ok hd
  have hworded : Worded (s.shared.scopes.define s.draft.scope name place isPublic).1 := hs.define h place isPublic
  rw [ht] at hworded
  exact ⟨hworded, trivial⟩

theorem makes_nameOf (h : Proper d.localName) : Makes IsAtom (Codegen.nameOf d) := by
  intro s name s' hs hname
  obtain ⟨t, ht, hreport⟩ := Codegen.nameOf_eq_ok hname
  obtain ⟨hworded, hproper⟩ := hs.importSymbol h ht
  refine ⟨?_, hproper.isAtom⟩
  rcases Codegen.reportBodiless_cases hreport with rfl | ⟨p, rfl⟩
  · exact hworded
  · exact hworded

theorem makes_definition? (place : Option String) :
    Makes (fun d? => ∀ d, d? = some d → Proper d.localName) (Codegen.definition? place) := by
  intro s d? s' hs hd
  cases hd
  refine ⟨hs, fun d hd => ?_⟩
  obtain ⟨p, -, hp⟩ := Option.bind_eq_some_iff.1 hd
  exact hs.definitionAt? hp

/-- A name that is entered stands for its type, whatever its typedef is. -/
theorem makes_enterTypedef {place description : Option String} {body : Gen (Option TypedefBody)} (h : Proper name)
    (hbody : Makes (fun _ => True) body) :
    Makes (· = name) (Codegen.enterTypedef name place description body) := by
  unfold Codegen.enterTypedef
  refine (makes_definition? place).bind fun d? hd => ?_
  cases d? with
  | some d =>
    exact (makes_define h none false).bind fun _ _ => (makes_nameOf (hd d rfl)).bind fun target _ =>
      (makes_addTypedef _).bind fun _ _ => .pure rfl
  | none =>
    refine (makes_define h place false).bind fun _ _ => hbody.bind fun made _ => ?_
    cases made with
    | some body => exact (makes_addTypedef _).bind fun _ _ => .pure rfl
    -- without a body there is no typedef, but the name stays where it was entered
    | none =>
      intro s n s' hs hn
      cases hn.symm.trans (Codegen.leave_eq name place s)
      exact ⟨hs, rfl⟩

end Grammar
end TypedClient
