import TypedClient.Proofs.Making.Methods
/-!
# Labels — when the names for the types of an operation meet

The type of a parameter is named for the parameter, the one of a body for the status and, where there are several, for the media
type; the ends of the names tell these apart.  No label of a status begins another one (`label_prefixFree`), so that what
follows it is told apart as well.  But names of parameters and media types come to labels that may be the same, and then so are
the names of their types: that is when two objects of an operation ask for one name (`nodup_objectNames_iff`).
-/
namespace TypedClient
namespace Emit

open Naming (statusLabels statusLabel words lowerAscii)

/-! ## Labels of status keys -/

namespace Coverage

/-- How a status key is spelled in small letters. -/
def small : Coverage → String
  | .one n => Nat.repr n
  | .family d => String.ofList [Nat.digitChar d, 'x', 'x']
  | .rest => "default"

/-- How a status key other than `default` is spelled in capital letters. -/
def capital : Coverage → String
  | .one n => Nat.repr n
  | .family d => String.ofList [Nat.digitChar d, 'X', 'X']
  | .rest => ""

/-- The label of what a status key stands for. -/
def label (c : Coverage) : String :=
  (statusLabels.lookup c.small).getD ("Status" ++ c.capital)

end Coverage

variable {key key' : String} {c c' : Coverage}

theorem Spells.small (h : Spells key c) : Spells c.small c := by
  cases h with
  | one low high => exact .one low high
  | family low high _ _ => exact .family low high (.inr rfl) (.inr rfl)
  | rest => exact .rest

theorem Spells.capital (h : Spells key c) (hrest : c ≠ .rest) : Spells c.capital c := by
  cases h with
  | one low high => exact .one low high
  | family low high _ _ => exact .family low high (.inl rfl) (.inl rfl)
  | rest => exact absurd rfl hrest

theorem case_of_isDigit {d : Char} (h : d.isDigit = true) : d.toLower = d ∧ Text.upperChar d = [d] := by
  have hall : ∀ n : Fin 128, (Char.ofNat n).isDigit = true →
      (Char.ofNat n).toLower = Char.ofNat n ∧ Text.upperChar (Char.ofNat n) = [Char.ofNat n] := by
    decide
  obtain ⟨-, high⟩ := Text.isDigit_bounds d h
  have hd := hall ⟨d.toNat, by omega⟩
  rw [Char.ofNat_toNat] at hd
  exact hd h

theorem words_repr (n : Nat) : words (Nat.repr n) = [Nat.repr n] := by
  have hword : ∀ d ∈ (Nat.repr n).toList, (!d.isAlphanum) = false := by
    intro d hd
    rw [Char.isAlphanum, Text.isDigit_of_mem_repr n d hd, Bool.or_true]
    rfl
  have hkept : [(Nat.repr n).toList].filter (!·.isEmpty) = [(Nat.repr n).toList] := by
    refine List.filter_cons_of_pos ?_
    rw [Bool.not_eq_true', List.isEmpty_eq_false_iff]
    exact Text.repr_toList_ne_nil n
  rw [words, Text.splitBy_of_none _ _ hword, hkept, List.map_singleton, String.ofList_toList]

theorem lowerAscii_of_spells (h : Spells key c) : lowerAscii key = c.small := by
  cases h with
  | @one n low high =>
    have hsame : (Nat.repr n).toList.map Char.toLower = (Nat.repr n).toList :=
      List.map_congr_left (g := id) (fun d hd => (case_of_isDigit (Text.isDigit_of_mem_repr n d hd)).1) ▸ List.map_id _
    rw [lowerAscii, hsame, String.ofList_toList]
    rfl
  | @family d x y low high hx hy =>
    interval_cases d <;> rcases hx with rfl | rfl <;> rcases hy with rfl | rfl <;> decide
  | rest => decide

theorem words_upper_of_spells (h : Spells key c) (hrest : c ≠ .rest) : words (Text.upper key) = [c.capital] := by
  cases h with
  | @one n low high =>
    have hsame : (Nat.repr n).toList.flatMap Text.upperChar = (Nat.repr n).toList :=
      (List.flatMap_congr fun d hd => (case_of_isDigit (Text.isDigit_of_mem_repr n d hd)).2).trans (List.flatMap_singleton' _)
    rw [Text.upper, hsame, String.ofList_toList]
    exact words_repr n
  | @family d x y low high hx hy =>
    interval_cases d <;> rcases hx with rfl | rfl <;> rcases hy with rfl | rfl <;> decide
  | rest => exact absurd rfl hrest

/-- **A status key has the label of what it stands for.** -/
theorem statusLabel_of_spells (h : Spells key c) : statusLabel key = c.label := by
  unfold statusLabel Coverage.label
  rw [lowerAscii_of_spells h]
  cases hl : statusLabels.lookup c.small with
  | some label => rfl
  | none =>
    have hrest : c ≠ .rest := by
      rintro rfl
      cases hl
    dsimp only
    rw [words_upper_of_spells h hrest]
    rfl

theorem length_capital (h : Spells key c) (hrest : c ≠ .rest) : c.capital.toList.length = 3 := by
  cases h with
  | @one n low high =>
    have h1 := Nat.toDigits_of_base_le (b := 10) (n := n) (by decide) (by omega)
    have h2 := Nat.toDigits_of_base_le (b := 10) (n := n / 10) (by decide) (by omega)
    have h3 := Nat.toDigits_of_lt_base (b := 10) (n := n / 10 / 10) (by omega)
    rw [Coverage.capital, Nat.toList_repr, h1, h2, h3]
    rfl
  | family _ _ _ _ =>
    rw [Coverage.capital, String.toList_ofList]
    rfl
  | rest => exact absurd rfl hrest

theorem prefix_of_append_eq {a b x y : String} (h : a ++ x = b ++ y) : a.toList <+: b.toList ∨ b.toList <+: a.toList := by
  have hlist := congrArg String.toList h
  rw [String.toList_append, String.toList_append] at hlist
  exact List.prefix_or_prefix_of_prefix (List.prefix_append _ x.toList) (hlist ▸ List.prefix_append _ _)

/-- **No label of a status begins another one**: what goes on from the labels of two statuses is different. -/
theorem label_prefixFree {x y : String} (h : Spells key c) (h' : Spells key' c') (heq : c.label ++ x = c'.label ++ y) :
    c = c' := by
  have hcommon : ∀ a ∈ statusLabels, ∀ b ∈ statusLabels, a.2.toList <+: b.2.toList → a = b := by decide
  have hother : ∀ {l x y small : String}, statusLabels.lookup small = some l → l ++ x ≠ "Status" ++ y := by
    have hbegins : ∀ a ∈ statusLabels, 2 ≤ a.2.toList.length ∧ a.2.toList.take 2 ≠ ['S', 't'] := by decide
    intro l x y small hl heq
    obtain ⟨hlong, hbegin⟩ := hbegins _ (mem_of_lookup _ _ _ hl)
    have hlist := congrArg (fun text => text.toList.take 2) heq
    simp only [String.toList_append, List.take_append_of_le_length hlong] at hlist
    exact hbegin hlist
  have hrest : ∀ {c : Coverage}, statusLabels.lookup c.small = none → c ≠ .rest := by
    rintro c hl rfl
    cases hl
  -- a label of the list begins no other one there, and no other label begins like those
  unfold Coverage.label at heq
  cases hl : statusLabels.lookup c.small with
  | some l =>
    cases hl' : statusLabels.lookup c'.small with
    | some l' =>
      rw [hl, hl', Option.getD_some, Option.getD_some] at heq
      have hsame : (c.small, l) = (c'.small, l') := by
        rcases prefix_of_append_eq heq with hp | hp
        · exact hcommon _ (mem_of_lookup _ _ _ hl) _ (mem_of_lookup _ _ _ hl') hp
        · exact (hcommon _ (mem_of_lookup _ _ _ hl') _ (mem_of_lookup _ _ _ hl) hp).symm
      exact spells_unique h.small ((Prod.mk.inj hsame).1 ▸ h'.small)
    | none =>
      rw [hl, hl', Option.getD_some, Option.getD_none, String.append_assoc] at heq
      exact absurd heq (hother hl)
  | none =>
    cases hl' : statusLabels.lookup c'.small with
    | some l' =>
      rw [hl, hl', Option.getD_some, Option.getD_none, String.append_assoc] at heq
      exact absurd heq.symm (hother hl')
    | none =>
      rw [hl, hl', Option.getD_none, Option.getD_none, String.append_assoc, String.append_assoc] at heq
      -- both go on with three characters, those of the key
      have hlist := congrArg String.toList heq
      rw [String.toList_append, String.toList_append (s := "Status"), String.toList_append (s := c.capital),
        String.toList_append (s := c'.capital)] at hlist
      have hlength := (length_capital h (hrest hl)).trans (length_capital h' (hrest hl')).symm
      have hsame := String.toList_inj.1 (List.append_inj (List.append_cancel_left hlist) hlength).1
      exact spells_unique (h.capital (hrest hl)) (hsame ▸ h'.capital (hrest hl'))

end Emit

namespace Operation

open Emit (WellDeclared Spells Coverage)

/-! ## Names of types -/

variable {name : String}

theorem parameterType_inj {p q : Parameter} :
    parameterType name p = parameterType name q ↔ Naming.typeName p.name = Naming.typeName q.name := by
  unfold parameterType
  rw [String.append_left_inj, String.append_right_inj]

/-- The label of the body of a response: that of the status, and where there are several media types that of its own. -/
def bodyLabel (key : String) (several : Bool) (contentType : String) : String :=
  Naming.statusLabel key ++ (if several then Naming.mediaLabel contentType else "")

/-- **The labels of the bodies of two statuses are different.** -/
theorem bodyLabel_ne {key key' contentType contentType' : String} {several several' : Bool} {c c' : Coverage}
    (h : Spells key c) (h' : Spells key' c') (hne : c ≠ c') :
    bodyLabel key several contentType ≠ bodyLabel key' several' contentType' := by
  unfold bodyLabel
  rw [Emit.statusLabel_of_spells h, Emit.statusLabel_of_spells h']
  exact fun heq => hne (Emit.label_prefixFree h h' heq)

theorem bodyLabel_several_inj {key contentType contentType' : String} :
    bodyLabel key true contentType = bodyLabel key true contentType' ↔
      Naming.mediaLabel contentType = Naming.mediaLabel contentType' := by
  unfold bodyLabel
  rw [if_pos rfl, if_pos rfl, String.append_right_inj]

/-! ## Names that objects ask for -/

/-- Whether a schema is an object. -/
def isObject : Option Schema → Bool
  | some (.object ..) => true
  | _ => false

/-- **The names that the objects of an operation ask for**, in their order. -/
def Spec.objectNames (spec : Spec) : List String :=
  (spec.needs.filter fun need => isObject need.1).map (·.2)

def Parameter.isObject (p : Parameter) : Bool :=
  Operation.isObject ((p.node.get? "schema").bind Schema.read?)

def isObjectBody (media : Node) : Bool :=
  match unwrap? (mediaSchema media) media with
  | .ok found => isObject (returned (mediaSchema media) found)
  | .error _ => false

/-- The media types of a response, whatever is declared for them. -/
def contentOf (answer : Node) : List (String × Node) :=
  ((answer.get? "content").bind Node.entries?).getD []

/-- The media types of the objects among the bodies of a response. -/
def objectTypes (answer : Node) : List String :=
  ((contentOf answer).filter fun entry => isObjectBody entry.2).map (·.1)

/-- The labels of the objects among the bodies of a response. -/
def answerLabels (answer : String × Node) : List String :=
  (objectTypes answer.2).map (bodyLabel answer.1 ((contentOf answer.2).length > 1))

/-- **Whether the objects of an operation have labels of their own**: those among its parameters, and those among the bodies
of its responses. -/
structure Spec.Labelled (spec : Spec) : Prop where
  parameters : ∀ declared, spec.parameters = .ok declared →
    ((declared.filter Parameter.isObject).map fun p => Naming.typeName p.name).Nodup
  bodies : ∀ responses, (spec.operation.get? "responses").bind Node.entries? = some responses →
    (responses.flatMap answerLabels).Nodup

def answerType (operationName label : String) : String :=
  Text.capitalize operationName ++ label ++ "Response"

theorem objectNames_eq (spec : Spec) : spec.objectNames =
    (((match spec.parameters with
        | .ok declared => declared
        | .error _ => []).filter Parameter.isObject).map (parameterType spec.name) ++
      ((mediaSchema? ((spec.operation.get? "requestBody").getD .null) "application/json").toList.filter
        fun node => isObject (Schema.read? node)).map fun _ => requestType spec.name) ++
      ((((spec.operation.get? "responses").bind Node.entries?).getD []).flatMap answerLabels).map
        (answerType spec.name) := by
  have hanswer : ∀ (key : String) (several : Bool) (content : List (String × Node)),
      ((content.filterMap fun entry =>
        match unwrap? (mediaSchema entry.2) entry.2 with
        | .ok found => some (returned (mediaSchema entry.2) found, responseType spec.name key several entry.1)
        | .error _ => none).filter fun need => isObject need.1).map (·.2) =
      (((content.filter fun entry => isObjectBody entry.2).map (·.1)).map (bodyLabel key several)).map
        (answerType spec.name) := by
    intro key several content
    induction content with
    | nil => rfl
    | cons entry rest ih =>
      rw [List.filterMap_cons, List.filter_cons, isObjectBody]
      cases hu : unwrap? (mediaSchema entry.2) entry.2 with
      | error e => exact ih
      | ok found =>
        dsimp only
        rw [List.filter_cons]
        split
        · exact congrArg (_ :: ·) ih
        · exact ih
  unfold Spec.objectNames Spec.needs
  dsimp only
  rw [List.filter_append, List.filter_append, List.map_append, List.map_append, List.filter_map, List.filter_map,
    List.map_map, List.map_map, List.filter_flatMap, List.map_flatMap, List.map_flatMap]
  congr 1
  refine List.flatMap_congr fun answer _ => ?_
  exact hanswer answer.1 _ _

theorem pairwise_of_short {α : Type} {r : α → α → Prop} : ∀ {xs : List α}, xs.length ≤ 1 → xs.Pairwise r
  | [], _ => .nil
  | [x], _ => List.pairwise_singleton r x
  | _ :: _ :: _, h => absurd h (by simp)

theorem last_of_mem_map {α : Type} {f : α → String} {xs : List α} {tail : String} {c : Char}
    (hf : ∀ x, ∃ front, f x = front ++ tail) (hc : tail.toList.getLast? = some c) :
    ∀ n ∈ xs.map f, n.toList.getLast? = some c := by
  intro n hn
  obtain ⟨x, -, rfl⟩ := List.mem_map.1 hn
  obtain ⟨front, hfront⟩ := hf x
  rw [hfront, String.toList_append, List.getLast?_append, hc, Option.some_or]

theorem ne_of_ends {xs ys : List String} {x y : Char} (hx : ∀ n ∈ xs, n.toList.getLast? = some x)
    (hy : ∀ n ∈ ys, n.toList.getLast? = some y) (hne : x ≠ y) : ∀ n ∈ xs, ∀ m ∈ ys, n ≠ m := by
  rintro n hn m hm rfl
  exact hne (Option.some.inj ((hx n hn).symm.trans (hy n hm)))

/-- **The names that the objects of an operation ask for are different exactly if their labels are.** -/
theorem nodup_objectNames_iff (spec : Spec) : spec.objectNames.Nodup ↔ spec.Labelled := by
  have hparameters : ∀ declared : List Parameter, (declared.map (parameterType spec.name)).Nodup ↔
      (declared.map fun p => Naming.typeName p.name).Nodup := by
    intro declared
    unfold List.Nodup
    rw [List.pairwise_map, List.pairwise_map]
    simp only [Ne, parameterType_inj]
  have hone : ∀ node? : Option Node, ((node?.toList.filter fun node => isObject (Schema.read? node)).map fun _ =>
      requestType spec.name).Nodup := by
    intro node?
    refine pairwise_of_short ?_
    rw [List.length_map]
    exact (List.length_filter_le _ _).trans Option.length_toList_le
  have hbodies : ∀ labels : List String, (labels.map (answerType spec.name)).Nodup ↔ labels.Nodup := by
    refine fun labels => List.nodup_map_iff fun label label' heq => ?_
    unfold answerType at heq
    rwa [String.append_left_inj, String.append_right_inj] at heq
  -- the three parts of the names have different ends
  have hofParameters : ∀ declared : List Parameter, ∀ n ∈ declared.map (parameterType spec.name),
      n.toList.getLast? = some 'r' := fun _ => last_of_mem_map (fun p => ⟨_, rfl⟩) (by decide)
  have hofBody : ∀ nodes : List Node, ∀ n ∈ nodes.map fun _ => requestType spec.name, n.toList.getLast? = some 't' :=
    fun _ => last_of_mem_map (fun _ => ⟨_, rfl⟩) (by decide)
  have hofResponses : ∀ labels : List String, ∀ n ∈ labels.map (answerType spec.name), n.toList.getLast? = some 'e' :=
    fun _ => last_of_mem_map (fun _ => ⟨_, rfl⟩) (by decide)
  rw [objectNames_eq, List.nodup_append, List.nodup_append, hparameters, hbodies]
  constructor
  · rintro ⟨⟨hp, -, -⟩, hb, -⟩
    refine ⟨fun declared hd => ?_, fun responses hr => ?_⟩
    · rwa [hd] at hp
    · rwa [hr] at hb
  · rintro ⟨hp, hb⟩
    refine ⟨⟨?_, hone _, ne_of_ends (hofParameters _) (hofBody _) (by decide)⟩, ?_, fun n hn => ?_⟩
    · cases hd : spec.parameters with
      | error e => exact .nil
      | ok declared => exact hp declared hd
    · cases hr : (spec.operation.get? "responses").bind Node.entries? with
      | none => exact .nil
      | some responses => exact hb responses hr
    · rcases List.mem_append.1 hn with hn | hn
      · exact ne_of_ends (hofParameters _) (hofResponses _) (by decide) n hn
      · exact ne_of_ends (hofBody _) (hofResponses _) (by decide) n hn

/-! ## Labels of bodies -/

theorem nodup_answerLabels_iff (answer : String × Node) :
    (answerLabels answer).Nodup ↔ ((objectTypes answer.2).map Naming.mediaLabel).Nodup := by
  unfold answerLabels List.Nodup
  rw [List.pairwise_map, List.pairwise_map]
  by_cases hseveral : (contentOf answer.2).length > 1
  · rw [decide_eq_true hseveral]
    simp only [Ne, bodyLabel_several_inj]
  · have hshort : (objectTypes answer.2).length ≤ 1 := by
      rw [objectTypes, List.length_map]
      exact (List.length_filter_le _ _).trans (Nat.not_lt.1 hseveral)
    exact iff_of_true (pairwise_of_short hshort) (pairwise_of_short hshort)

/-- **The labels of bodies are different exactly if those of the media types of each response are**, where the keys of the
responses are status codes, ranges of them, or the default. -/
theorem nodup_bodyLabels_iff {responses : List (String × Node)} (hkeys : (responses.map (·.1)).Nodup)
    (hdeclared : WellDeclared (responses.map (·.1))) : (responses.flatMap answerLabels).Nodup ↔
      ∀ answer ∈ responses, ((objectTypes answer.2).map Naming.mediaLabel).Nodup := by
  have hpairwise : responses.Pairwise fun a b => List.Disjoint (answerLabels a) (answerLabels b) := by
    refine (List.pairwise_map.1 hkeys).imp_of_mem fun {a b} ha hb hne => ?_
    obtain ⟨c, hc⟩ := hdeclared.spelled _ (List.mem_map_of_mem ha)
    obtain ⟨c', hc'⟩ := hdeclared.spelled _ (List.mem_map_of_mem hb)
    have hother : c ≠ c' := by
      rintro rfl
      exact hne (hdeclared.unique _ (List.mem_map_of_mem ha) _ (List.mem_map_of_mem hb) c hc hc')
    intro label hlabel hlabel'
    obtain ⟨contentType, -, rfl⟩ := List.mem_map.1 hlabel
    obtain ⟨contentType', -, heq⟩ := List.mem_map.1 hlabel'
    exact bodyLabel_ne hc hc' hother heq.symm
  rw [List.nodup_flatMap, and_iff_left hpairwise]
  simp only [nodup_answerLabels_iff]

/-- Names and media types that are different may have one label. -/
example : Naming.typeName "page-size" = Naming.typeName "pageSize" ∧
    Naming.mediaLabel "application/json" = Naming.mediaLabel "text/json" := by
  decide +kernel

end Operation
end TypedClient
