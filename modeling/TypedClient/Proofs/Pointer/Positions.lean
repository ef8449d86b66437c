import TypedClient.Proofs.Expansion.Places
import TypedClient.Proofs.Replacing
import TypedClient.Proofs.Scope.Growth
/-!
# Positions — where a node stands in a document

A position is the list of steps that lead down to a node.  Its pointer designates what stands there (`resolve_ofPosition`), and
no two positions of a document have the same pointer.  The steps are told apart because escaping is undone by unescaping, and
unescaping by escaping wherever the text has the form of an escaped one (`escape_unescape_iff`).
-/
namespace TypedClient

namespace Pointer

open Text (replaceChar replacePair replacePair_cons replacePair_pair)

/-! ## The escape -/

/-- **A token is escaped by two replacements**: of `~` first, then of `/`. -/
theorem escape_eq_replaced (token : String) :
    escape token = String.ofList (replaceChar '/' ['~', '1'] (replaceChar '~' ['~', '0'] token.toList)) := by
  have hchar : ∀ c, (if c = '~' then ['~', '0'] else [c]).flatMap (fun c => if c = '/' then ['~', '1'] else [c]) =
      escapeChar c := by
    intro c
    unfold escapeChar
    by_cases hc : c = '~' <;> simp [hc]
  unfold escape replaceChar
  rw [List.flatMap_assoc]
  simp only [hchar]

theorem unescapeChars_eq_replaced (cs : List Char) :
    unescapeChars cs = replacePair '~' '0' ['~'] (replacePair '~' '1' ['/'] cs) := by
  fun_induction unescapeChars cs with
  | case1 rest ih =>
    rw [replacePair_pair, List.singleton_append, replacePair_cons (by simp), ih]
  | case2 rest ih =>
    rw [replacePair_cons (by simp), replacePair_cons (a := '~') (c := '0') (by simp), replacePair_pair, ih]
    rfl
  | case3 c rest hone hzero ih =>
    -- neither pair starts here, and the first replacement does not bring a `0` behind the `~`
    have hfirst : ¬ (c = '~' ∧ rest.head? = some '1') := by
      rintro ⟨rfl, hhead⟩
      obtain ⟨rest, rfl⟩ := List.head?_eq_some_iff.1 hhead
      exact hone rest rfl rfl
    have hsecond : ¬ (c = '~' ∧ (replacePair '~' '1' ['/'] rest).head? = some '0') := by
      rintro ⟨rfl, hhead⟩
      rcases Text.head?_replacePair hhead (by simp) with hhead | hhead
      · obtain ⟨rest, rfl⟩ := List.head?_eq_some_iff.1 hhead
        exact hzero rest rfl rfl
      · cases hhead
    rw [replacePair_cons hfirst, replacePair_cons hsecond, ih]
  | case4 => rfl

/-- **A token is read by two replacements**: of `~1` first, then of `~0`. -/
theorem unescape_eq_replaced (token : String) :
    unescape token = String.ofList (replacePair '~' '0' ['~'] (replacePair '~' '1' ['/'] token.toList)) := by
  rw [unescape, unescapeChars_eq_replaced]

/-- Whether characters have the form of an escaped token: no `/`, and a `0` or a `1` behind every `~`. -/
def Escaped (cs : List Char) : Prop :=
  '/' ∉ cs ∧ ∀ before after, cs = before ++ '~' :: after → after.head? = some '0' ∨ after.head? = some '1'

theorem escaped_nil : Escaped [] :=
  ⟨nofun, fun before after h => by simp at h⟩

theorem escaped_cons {c : Char} {cs : List Char} : Escaped (c :: cs) ↔
    c ≠ '/' ∧ (c = '~' → cs.head? = some '0' ∨ cs.head? = some '1') ∧ Escaped cs := by
  constructor
  · rintro ⟨hslash, htilde⟩
    refine ⟨fun h => hslash (h ▸ List.mem_cons_self), fun h => htilde [] cs (h ▸ rfl),
      fun hm => hslash (List.mem_cons_of_mem _ hm), fun before after h => htilde (c :: before) after (h ▸ rfl)⟩
  · rintro ⟨hc, hhead, hslash, htilde⟩
    refine ⟨by simpa using ⟨hc.symm, hslash⟩, fun before after h => ?_⟩
    cases before with
    | nil =>
      obtain ⟨rfl, rfl⟩ := List.cons.inj h
      exact hhead rfl
    | cons d before => exact htilde before after (List.cons.inj h).2

theorem escaped_escape : ∀ cs : List Char, Escaped (cs.flatMap escapeChar)
  | [] => escaped_nil
  | c :: cs => by
    have ih := escaped_escape cs
    rw [List.flatMap_cons, escapeChar]
    split
    · simp [escaped_cons, ih]
    split
    · simp [escaped_cons, ih]
    · rename_i htilde hslash
      simp [escaped_cons, ih, htilde, hslash]

theorem escapeChars_unescape {cs : List Char} (h : Escaped cs) : (unescapeChars cs).flatMap escapeChar = cs := by
  fun_induction unescapeChars cs with
  | case1 rest ih =>
    rw [List.flatMap_cons, ih (escaped_cons.1 (escaped_cons.1 h).2.2).2.2]
    rfl
  | case2 rest ih =>
    rw [List.flatMap_cons, ih (escaped_cons.1 (escaped_cons.1 h).2.2).2.2]
    rfl
  | case3 c rest hone hzero ih =>
    obtain ⟨hslash, hhead, htail⟩ := escaped_cons.1 h
    have htilde : c ≠ '~' := by
      rintro rfl
      rcases hhead rfl with hhead | hhead
      · obtain ⟨rest, rfl⟩ := List.head?_eq_some_iff.1 hhead
        exact hzero rest rfl rfl
      · obtain ⟨rest, rfl⟩ := List.head?_eq_some_iff.1 hhead
        exact hone rest rfl rfl
    rw [List.flatMap_cons, ih htail, escapeChar, if_neg htilde, if_neg hslash]
    rfl
  | case4 => rfl

/-- **Unescaping loses nothing of an escaped token**, and of no other. -/
theorem escape_unescape_iff (token : String) : escape (unescape token) = token ↔ Escaped token.toList := by
  unfold escape unescape
  rw [String.toList_ofList]
  constructor
  · intro h
    rw [← h, String.toList_ofList]
    exact escaped_escape _
  · intro h
    rw [escapeChars_unescape h, String.ofList_toList]

end Pointer

/-! ## Positions -/

/-- A step down: to the value of a key, or to an item of a list. -/
inductive Move where
  | key (name : String)
  | item (index : Nat)
  deriving DecidableEq

namespace Move

/-- What the step is called in a pointer. -/
def token : Move → String
  | .key name => name
  | .item index => toString index

end Move

/-- The node that the steps lead to, if there is one. -/
def Node.at? : Node → List Move → Option Node
  | node, [] => some node
  | .map _ entries, .key name :: rest => (entries.lookup name).bind (·.at? rest)
  | .list _ items, .item index :: rest => items[index]?.bind (·.at? rest)
  | _, _ :: _ => none

namespace Pointer

open Text (replaceChar replacePair)

/-- The pointer of a position: `#`, and for every step a `/` and its escaped token. -/
def ofPosition (position : List Move) : String :=
  position.foldl (fun pointer move => child pointer move.token) "#"

theorem tokens?_ofPosition (position : List Move) : tokens? (ofPosition position) = some (position.map Move.token) := by
  have hfold : ∀ (moves : List Move) (pointer : String) (ts : List String), tokens? pointer = some ts →
      tokens? (moves.foldl (fun pointer move => child pointer move.token) pointer) = some (ts ++ moves.map Move.token) := by
    intro moves
    induction moves with
    | nil =>
      intro pointer ts h
      rw [List.foldl_nil, h, List.map_nil, List.append_nil]
    | cons move moves ih =>
      intro pointer ts h
      rw [List.foldl_cons, ih _ _ (tokens?_child pointer move.token ts h), List.append_assoc]
      rfl
  exact hfold position "#" [] rfl

/-- A step that can be made is made by its token. -/
theorem step_token {node next : Node} {move : Move} (hnode : node.Proper) (h : node.at? [move] = some next) :
    step node move.token = .ok (some next) := by
  cases move with
  | key name =>
    cases node with
    | map path entries =>
      obtain ⟨x, hx, h⟩ := Option.bind_eq_some_iff.1 h
      cases h
      exact congrArg Except.ok hx
    | _ => cases h
  | item index =>
    cases node with
    | list path items =>
      obtain ⟨x, hx, h⟩ := Option.bind_eq_some_iff.1 h
      cases h
      have hindex : index < 10 ^ Text.digitLimit := by
        have hlt : index < items.length := (List.getElem?_eq_some_iff.1 hx).1
        have hlength : items.length < 2 ^ 63 := by
          simpa [Node.keepsKeys] using Node.everywhere_self _ hnode
        calc index < 10 ^ 19 := by omega
          _ ≤ 10 ^ Text.digitLimit := Nat.pow_le_pow_right (by decide) (by decide)
      have hread : Text.readInt? (toString index) = some (index : Int) := Text.readInt?_repr index hindex
      have hnumeral : Text.isNumeral (toString index) = true := Text.isNumeral_repr index
      simp only [Move.token, step, hnumeral, if_true, hread, Int.toNat_natCast, hx]
    | _ => cases h

theorem at?_cons {node : Node} {move : Move} {rest : List Move} :
    node.at? (move :: rest) = (node.at? [move]).bind (·.at? rest) := by
  cases move <;> cases node <;> simp [Node.at?]

theorem descend_tokens {found : Node} : ∀ {position : List Move} {node : Node}, node.Proper →
    node.at? position = some found → descend node (position.map Move.token) = .ok (some found)
  | [], node, _, h => by
    cases h
    rfl
  | move :: rest, node, hnode, h => by
    rw [at?_cons] at h
    obtain ⟨next, hnext, h⟩ := Option.bind_eq_some_iff.1 h
    have hstep := step_token hnode hnext
    have hproper : next.Proper := Node.everywhere_below node next hnode (Expansion.below_of_step hstep)
    rw [List.map_cons, descend, hstep]
    exact descend_tokens hproper h

/-- **The pointer of a position designates what stands there.** -/
theorem resolve_ofPosition {document node : Node} {position : List Move} (hd : document.Proper)
    (h : document.at? position = some node) : resolve document (ofPosition position) = .ok (some node) := by
  rw [resolve, tokens?_ofPosition]
  exact descend_tokens hd h

/-- Below one node, tokens tell the steps apart. -/
theorem token_injective {node x y : Node} {m n : Move} (hm : node.at? [m] = some x) (hn : node.at? [n] = some y)
    (h : m.token = n.token) : m = n := by
  cases node with
  | map path entries =>
    cases m with
    | key a =>
      cases n with
      | key b => exact congrArg Move.key h
      | item _ => cases hn
    | item _ => cases hm
  | list path items =>
    cases m with
    | key _ => cases hm
    | item i =>
      cases n with
      | key _ => cases hn
      | item j => exact congrArg Move.item (Scope.toString_injective h)
  | _ => cases m <;> cases hm

/-- **The tokens on the way down a document tell its positions apart.** -/
theorem position_of_tokens : ∀ {p q : List Move} {node x y : Node}, node.at? p = some x → node.at? q = some y →
    p.map Move.token = q.map Move.token → p = q
  | [], [], _, _, _, _, _, _ => rfl
  | [], _ :: _, _, _, _, _, _, h => by cases h
  | _ :: _, [], _, _, _, _, _, h => by cases h
  | m :: p, n :: q, node, x, y, hp, hq, h => by
    rw [at?_cons] at hp hq
    obtain ⟨next, hnext, hp⟩ := Option.bind_eq_some_iff.1 hp
    obtain ⟨next', hnext', hq⟩ := Option.bind_eq_some_iff.1 hq
    obtain ⟨hhead, htail⟩ := List.cons.inj h
    obtain rfl := token_injective hnext hnext' hhead
    cases hnext.symm.trans hnext'
    rw [position_of_tokens hp hq htail]

/-- **Pointers and positions.**  In a document, the pointer of a position designates what stands there, and no other position
has the same pointer.  Tokens are escaped and read by replacements in their order; reading undoes escaping, and escaping undoes
reading exactly for the texts that have the form of an escaped token. -/
theorem positions_pointed :
    (∀ (document node : Node) (position : List Move), document.Proper → document.at? position = some node →
      resolve document (ofPosition position) = .ok (some node)) ∧
    (∀ (document x y : Node) (p q : List Move), document.at? p = some x → document.at? q = some y → p ≠ q →
      ofPosition p ≠ ofPosition q) ∧
    (∀ token, escape token = String.ofList (replaceChar '/' ['~', '1'] (replaceChar '~' ['~', '0'] token.toList)) ∧
      unescape token = String.ofList (replacePair '~' '0' ['~'] (replacePair '~' '1' ['/'] token.toList)) ∧
      unescape (escape token) = token ∧ (escape (unescape token) = token ↔ Escaped token.toList)) := by
  refine ⟨fun _ _ _ hd h => resolve_ofPosition hd h, fun document x y p q hp hq hne h => hne ?_, fun token =>
    ⟨escape_eq_replaced token, unescape_eq_replaced token, unescape_escape token, escape_unescape_iff token⟩⟩
  have htokens := tokens?_ofPosition p
  rw [h, tokens?_ofPosition q] at htokens
  exact position_of_tokens hp hq (Option.some.inj htokens).symm

/-- A document with keys that look like indexes, separators and escapes. -/
def oddKeys : Node :=
  .map none [("", .int 1), ("0", .list none [.str "a", .map none [("~1/", .bool true), ("/", .null)]]), ("~01", .int 2)]

theorem oddKeys_pointed : oddKeys.Proper ∧ oddKeys.at? [.key "0", .item 1, .key "~1/"] = some (.bool true) ∧
    ofPosition [.key "0", .item 1, .key "~1/"] = "#/0/1/~01~1" ∧
    resolve oddKeys (ofPosition [.key "0", .item 1, .key "~1/"]) = .ok (some (.bool true)) ∧
    ofPosition [.key ""] ≠ ofPosition [] := by
  have hproper : oddKeys.Proper := by decide +kernel
  have hat : oddKeys.at? [.key "0", .item 1, .key "~1/"] = some (.bool true) := by decide +kernel
  exact ⟨hproper, hat, by decide +kernel, positions_pointed.1 _ _ _ hproper hat,
    positions_pointed.2.1 oddKeys (.int 1) oddKeys [.key ""] [] (by decide +kernel) (by decide +kernel) (by decide)⟩

end Pointer
end TypedClient
