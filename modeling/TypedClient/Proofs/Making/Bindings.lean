import TypedClient.Proofs.Making.Signatures
import TypedClient.Proofs.Naming.Sanitizing
/-!
# Bindings — argument names as the language binds them

The methods of an API class wait for their response, and stand in a class and in a module: the language reserves more words for
their arguments than sanitizing knows of.  Those that it overlooks (`overlooked`) come out of a text that has one of them between
characters that stand for nothing, and of no other (`bindable_sanitize_iff`); a number behind a word makes it another one.  So
the head of a method binds all of its arguments exactly if no parameter is called by such a word (`arguments_bindable_iff`).
-/
namespace TypedClient
namespace Naming

/-! ## Words that bind nothing -/

/-- The reserved words of the language, as they are in modules and in functions that wait. -/
def languageWords : List String :=
  ["await", "break", "case", "catch", "class", "const", "continue", "debugger", "default", "delete", "do", "else", "enum",
   "export", "extends", "false", "finally", "for", "function", "if", "import", "in", "instanceof", "new", "null", "return",
   "super", "switch", "this", "throw", "true", "try", "typeof", "var", "void", "while", "with", "yield"]

/-- The words that strict code reserves besides; classes and modules are strict. -/
def strictWords : List String :=
  ["implements", "interface", "let", "package", "private", "protected", "public", "static"]

/-- The names that strict code uses and does not bind. -/
def unboundNames : List String :=
  ["arguments", "eval"]

/-- **Whether a name can be bound to an argument** of a method that waits, in a class of a module. -/
structure Bindable (name : String) : Prop where
  identifier : isIdentifier name.toList = true
  language : name ∉ languageWords
  strict : name ∉ strictWords
  bound : name ∉ unboundNames

/-- **The words that bind nothing**, and of which sanitizing does not know. -/
def overlooked : List String :=
  (languageWords ++ strictWords ++ unboundNames).filter (!reservedWords.contains ·)

variable {raw word : String}

theorem standing_of_overlooked (h : word ∈ overlooked) : Standing word := by
  have hall : ∀ word ∈ overlooked, Standing word := by decide
  exact hall word h

theorem not_isDigit_of_overlooked (h : word ∈ overlooked) : ∀ c ∈ word.toList, c.isDigit = false := by
  have hall : ∀ word ∈ overlooked, word.toList.all (!·.isDigit) = true := by decide
  intro c hc
  exact Bool.not_eq_true' _ ▸ List.all_eq_true.1 (hall word h) c hc

theorem Proper.bindable_iff (h : Proper word) : Bindable word ↔ word ∉ overlooked := by
  have hunreserved : reservedWords.contains word = false :=
    Bool.eq_false_iff.2 fun hmem => h.unreserved (List.contains_iff_mem.1 hmem)
  have hmem : word ∈ overlooked ↔ (word ∈ languageWords ∨ word ∈ strictWords) ∨ word ∈ unboundNames := by
    rw [overlooked, List.mem_filter, hunreserved, List.mem_append, List.mem_append]
    exact and_iff_left rfl
  rw [hmem, not_or, not_or]
  exact ⟨fun hb => ⟨⟨hb.language, hb.strict⟩, hb.bound⟩, fun hn => ⟨h.identifier, hn.1.1, hn.1.2, hn.2⟩⟩

theorem sanitize_mem_overlooked_iff : sanitize raw ∈ overlooked ↔ bare raw ∈ overlooked := by
  constructor
  · intro h
    rw [(sanitize_eq_iff_bare (standing_of_overlooked h)).1 rfl]
    exact h
  · intro h
    rw [(sanitize_eq_iff_bare (standing_of_overlooked h)).2 rfl]
    exact h

/-- **A text comes to a name that can be bound**, unless it has a word that is overlooked between characters that stand for
nothing. -/
theorem bindable_sanitize_iff : Bindable (sanitize raw) ↔ bare raw ∉ overlooked := by
  rw [(proper_sanitize raw).bindable_iff, sanitize_mem_overlooked_iff]

/-- They are the words of the language for waiting and for generators, what strict code reserves, and what it does not bind. -/
example : overlooked = ["await", "yield"] ++ strictWords ++ unboundNames := by decide

end Naming

namespace Operation

open Codegen (Session)
open Emit (Argument Method)

variable {used : List String} {base word : String}

/-! ## Words among the names of arguments -/

/-- A word without digits is given to those alone who ask for it. -/
theorem freeArgument_eq_word (hword : ∀ c ∈ word.toList, c.isDigit = false) (h : freeArgument used base = word) : base = word := by
  obtain ⟨n, hn⟩ := Scope.exists_chosen (argumentCandidate base) (used.length + 1) (!used.contains ·)
  have hname : freeArgument used base = argumentCandidate base n := hn
  rw [hname, argumentCandidate] at h
  split at h
  · exact h
  · obtain ⟨c, hc⟩ := List.exists_mem_of_ne_nil _ (Text.repr_toList_ne_nil (n + 1))
    have hmem : c ∈ word.toList := by
      rw [← h, String.toList_append]
      exact List.mem_append_right _ hc
    exact absurd (Text.isDigit_of_mem_repr (n + 1) c hc) (Bool.eq_false_iff.1 (hword c hmem))

theorem freeArgument_of_not_mem (h : base ∉ used) : freeArgument used base = base := by
  have hfirst : (!used.contains (argumentCandidate base 0)) = true := by simpa [argumentCandidate] using h
  rw [freeArgument, List.range_succ_eq_map, List.map_cons, List.find?_cons, hfirst]
  rfl

/-- **A word names an argument exactly if a parameter comes to it.** -/
theorem word_mem_names_iff {operationName : String} (hword : ∀ c ∈ word.toList, c.isDigit = false) :
    ∀ {ps : List Parameter} {used : List String} {arguments : List Argument} {s t : Session},
      argumentsOf operationName used ps s = .ok arguments t → word ∉ used →
        ((∃ a ∈ arguments, a.name = word) ↔ ∃ p ∈ ps, Naming.sanitize p.name = word)
  | [], used, arguments, s, t, h, _ => by
    obtain ⟨rfl, -⟩ := pure_eq_ok.1 h
    simp
  | p :: rest, used, arguments, s, t, h, hused => by
    unfold argumentsOf at h
    obtain ⟨a, u, ha, h⟩ := bind_eq_ok.1 h
    obtain ⟨more, u', hmore, h⟩ := bind_eq_ok.1 h
    obtain ⟨rfl, -⟩ := pure_eq_ok.1 h
    obtain ⟨-, -, hname⟩ := argumentOf_eq_ok ha
    have hfirst : a.name = word ↔ Naming.sanitize p.name = word := by
      rw [hname]
      refine ⟨freeArgument_eq_word hword, fun heq => ?_⟩
      rw [heq, freeArgument_of_not_mem hused]
    rw [List.exists_mem_cons_iff, List.exists_mem_cons_iff, hfirst]
    -- the word is free for the parameters behind this one, until one comes to it
    by_cases heq : Naming.sanitize p.name = word
    · exact iff_of_true (.inl heq) (.inl heq)
    · have hstill : word ∉ used ++ [a.name] := by
        rw [List.mem_append, List.mem_singleton, not_or]
        exact ⟨hused, fun h => heq (hfirst.1 h.symm)⟩
      exact or_congr Iff.rfl (word_mem_names_iff hword hmore hstill)

/-- **A word that is overlooked names an argument exactly if a parameter comes to one.** -/
theorem names_overlooked_iff {operationName : String} {ps : List Parameter} {arguments : List Argument} {s t : Session}
    (h : argumentsOf operationName [responseName] ps s = .ok arguments t) :
    (∃ a ∈ arguments, a.name ∈ Naming.overlooked) ↔ ∃ p ∈ ps, Naming.sanitize p.name ∈ Naming.overlooked := by
  have hiff : ∀ word ∈ Naming.overlooked,
      ((∃ a ∈ arguments, a.name = word) ↔ ∃ p ∈ ps, Naming.sanitize p.name = word) := by
    intro word hword
    have hunused : ∀ word ∈ Naming.overlooked, word ∉ [responseName] := by decide
    exact word_mem_names_iff (Naming.not_isDigit_of_overlooked hword) h (hunused word hword)
  constructor
  · rintro ⟨a, ha, hword⟩
    obtain ⟨p, hp, heq⟩ := (hiff a.name hword).1 ⟨a, ha, rfl⟩
    exact ⟨p, hp, heq ▸ hword⟩
  · rintro ⟨p, hp, hword⟩
    obtain ⟨a, ha, heq⟩ := (hiff _ hword).2 ⟨p, hp, rfl⟩
    exact ⟨a, ha, heq ▸ hword⟩

theorem body_not_overlooked {operation : Node} {operationName : String} {body : Option Argument} {s t : Session}
    (h : bodyArgument? operation operationName used s = .ok body t) : ∀ a ∈ body.toList, a.name ∉ Naming.overlooked := by
  intro a ha hword
  have hname := (bodyArgument?_eq_ok h a ha).2
  have hpayload : "payload" = a.name := freeArgument_eq_word (Naming.not_isDigit_of_overlooked hword) hname.symm
  exact absurd (hpayload ▸ hword) (by decide)

/-! ## Heads of methods -/

theorem prepare_bindable_iff {spec : Spec} {made : Prepared} {s t : Session} (h : spec.prepare s = .ok made t) :
    (∀ a ∈ made.arguments, Naming.Bindable a.name) ↔ ∀ p ∈ made.declared, Naming.Bindable (Naming.sanitize p.name) := by
  obtain ⟨-, hproper, -⟩ := arguments_of_prepare h
  obtain ⟨_, _, -, hparameters, hbody, -⟩ := prepare_eq_ok h
  have hoverlooked := names_overlooked_iff hparameters
  constructor
  · intro hall p hp
    refine (Naming.proper_sanitize p.name).bindable_iff.2 fun hword => ?_
    obtain ⟨a, ha, hmem⟩ := hoverlooked.2 ⟨p, hp, hword⟩
    have hargument : a ∈ made.arguments := List.mem_append_left _ ha
    exact (hproper a hargument).bindable_iff.1 (hall a hargument) hmem
  · intro hall a ha
    refine (hproper a ha).bindable_iff.2 fun hword => ?_
    rcases List.mem_append.1 ha with hparameter | hrest
    · obtain ⟨p, hp, hmem⟩ := hoverlooked.1 ⟨a, hparameter, hword⟩
      exact (Naming.proper_sanitize p.name).bindable_iff.1 (hall p hp) hmem
    · exact body_not_overlooked hbody a hrest hword

/-- **Which arguments can be bound.**  The name made from a text can be bound exactly if the text has no word that is overlooked
between characters that stand for nothing, and the arguments of a method can all be bound exactly if this is so of the
parameters of its operation. -/
theorem arguments_bindable_iff (raw : String) :
    (Naming.Bindable (Naming.sanitize raw) ↔ Naming.bare raw ∉ Naming.overlooked) ∧
    ∀ (spec : Spec) (m : Method) (s t : Session), generate spec s = .ok m t → ∃ merged, spec.parameters = .ok merged ∧
      ((∀ a ∈ m.arguments, Naming.Bindable a.name) ↔ ∀ p ∈ merged, Naming.bare p.name ∉ Naming.overlooked) := by
  refine ⟨Naming.bindable_sanitize_iff, fun spec m s t h => ?_⟩
  obtain ⟨made, u, text, hmade, -, rfl⟩ := generate_inv h
  obtain ⟨_, _, hdeclared, -, -, -⟩ := prepare_eq_ok hmade
  have hmarked : (∀ a ∈ (made.method spec text).arguments, Naming.Bindable a.name) ↔
      ∀ a ∈ made.arguments, Naming.Bindable a.name := forall_mem_markOptional fun _ _ => Iff.rfl
  refine ⟨made.declared, hdeclared, ?_⟩
  rw [hmarked, prepare_bindable_iff hmade]
  exact forall₂_congr fun p _ => Naming.bindable_sanitize_iff

theorem thingNamedOddly_bindable : ∃ m t, generate thingNamedOddly default = .ok m t ∧
    Naming.Bindable (Naming.sanitize "if-") ∧ ∀ a ∈ m.arguments, Naming.Bindable a.name := by
  obtain ⟨m, t, hrun⟩ := exists_of_succeeds (r := generate thingNamedOddly default) (by decide +kernel)
  obtain ⟨hname, hmethods⟩ := arguments_bindable_iff "if-"
  obtain ⟨merged, hmerged, hiff⟩ := hmethods thingNamedOddly m default t hrun
  have hbare : ∀ p ∈ thingNamedOddly.parameters.toOption.getD [], Naming.bare p.name ∉ Naming.overlooked := by
    decide +kernel
  rw [hmerged] at hbare
  exact ⟨m, t, hrun, hname.2 (by decide +kernel), hiff.2 hbare⟩

/-- What a method waits with is left as it is. -/
theorem await_not_bindable : Naming.sanitize "await" = "await" ∧ ¬ Naming.Bindable (Naming.sanitize "await") :=
  ⟨by decide +kernel, fun h => absurd h.language (by decide +kernel)⟩

end Operation
end TypedClient
