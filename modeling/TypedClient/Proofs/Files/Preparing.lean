import TypedClient.Proofs.Files.Writing
/-!
# Preparing — how the output directory is made

A path is followed as far as there are directories (`furthest`).  Behind them the way is free, and directories are made along
it one after the other (`makeUpwards_clear`); or something is in the way that leads to no directory, and nothing is made
(`makeUpwards_blocked`).  So along a steady output path (`Steady`), the output directory is refused with nothing changed, or
it stands empty (`prepare_steady`).
-/
namespace TypedClient
namespace Files

open FileTree

variable {t t' : FileTree} {path : Path} {dir : Path} {place p q : Place} {throughLast overwrite : Bool} {slashes : Nat} {name : String}
  {names more before behind : List String}

/-! ## Paths that can be walked -/

/-- The text of a path goes on as that of one of its beginnings, unless that one has neither a root nor a name. -/
theorem text_append (slashes : Nat) (names more : List String) :
    Path.text ⟨slashes, names⟩ = "." ∨ ∃ s, Path.text ⟨slashes, names ++ more⟩ = Path.text ⟨slashes, names⟩ ++ s := by
  have hbody : ∃ s, "/".intercalate (names ++ more) = "/".intercalate names ++ s := by
    by_cases hnames : names = []
    · subst hnames
      exact ⟨"/".intercalate more, rfl⟩
    · by_cases hmore : more = []
      · subst hmore
        exact ⟨"", by simp⟩
      · rw [String.intercalate_append_of_ne_nil hnames hmore, String.append_assoc]
        exact ⟨_, rfl⟩
  obtain ⟨s, hs⟩ := hbody
  unfold Path.text
  dsimp only
  rw [hs, ← String.append_assoc]
  generalize String.ofList (List.replicate slashes '/') ++ "/".intercalate names = body
  by_cases hempty : body.isEmpty = true
  · exact .inl (if_pos hempty)
  · rw [if_neg hempty, if_neg]
    · exact .inr ⟨s, rfl⟩
    · simp_all

theorem walkable_initial (h : Walkable ⟨slashes, names ++ more⟩) : Walkable ⟨slashes, names⟩ := by
  obtain hdot | ⟨s, hs⟩ := text_append slashes names more
  · rw [Walkable, hdot]
    decide
  · rw [Walkable, hs] at h
    obtain ⟨hnul, hsize⟩ := h
    refine ⟨?_, ?_⟩
    · simp only [String.toList_append, List.contains_eq_mem, decide_eq_false_iff_not, List.mem_append, not_or] at hnul ⊢
      exact hnul.1
    · rw [String.utf8ByteSize_append] at hsize
      omega

/-! ## Ways through trees -/

theorem not_append_isPrefix (p : Place) (hmore : more ≠ []) : ¬p ++ more <+: p := by
  intro hpre
  have hlength := hpre.length_le
  rw [List.length_append] at hlength
  exact hmore (List.length_eq_zero_iff.1 (by omega))

namespace FileTree

theorem WellFormed.put (h : t.WellFormed) (hparent : t.entry? p = some .directory)
    (hfree : t.entry? (p ++ [name]) ≠ some .directory) (entry : Entry) : (t.put (p ++ [name]) entry).WellFormed := by
  intro q last hsome
  rw [entry?_put (by simp)] at hsome ⊢
  by_cases hq : q = p ++ [name]
  · subst hq
    rw [if_neg (by simp), h.none_below hfree (by simp)] at hsome
    exact absurd rfl hsome
  · rw [if_neg hq]
    split at hsome
    · rename_i heq
      rw [(List.append_inj_left' heq rfl : q = p)]
      exact hparent
    · exact h q last hsome

/-- **A clear way**: along the names from a place, there are directories and free places. -/
def ClearWay (t : FileTree) (place : Place) (names : List String) : Prop :=
  ∀ r, r <+: names → t.entry? (place ++ r) = none ∨ t.entry? (place ++ r) = some .directory

theorem ClearWay.initial (h : ClearWay t place names) {r : List String} (hr : r <+: names) : ClearWay t place r :=
  fun s hs => h s (hs.trans hr)

theorem ClearWay.tail (h : ClearWay t place (name :: names)) : ClearWay t (place ++ [name]) names := by
  intro r hr
  rw [List.append_assoc]
  exact h (name :: r) (List.cons_prefix_cons.2 ⟨rfl, hr⟩)

/-- Beyond a free place on a clear way, a walk misses a directory. -/
theorem ClearWay.walkLinks_missing (throughLast : Bool) (n : Nat) (hmore : more ≠ []) :
    ∀ {names : List String} {place : Place}, ClearWay t place names → (∀ name ∈ names, Downward name) →
      t.entry? place = some .directory → t.entry? (place ++ names) = none →
      t.walkLinks throughLast n place (names ++ more) = .error .missing
  | [], place, _, _, hdir, hnone => by
    rw [List.append_nil, hdir] at hnone
    cases hnone
  | name :: rest, place, hclear, hdown, _, hnone => by
    have hname := hdown name List.mem_cons_self
    obtain hfree | hdir := hclear [name] (by simp)
    · rw [List.cons_append, walkLinks_vacant hname hfree, if_neg (by simp [hmore])]
    · rw [List.cons_append, walkLinks_into hname hdir]
      refine hclear.tail.walkLinks_missing throughLast n hmore (fun m hm => hdown m (List.mem_cons_of_mem _ hm)) hdir ?_
      rwa [List.append_assoc]

/-- **A path that comes to a directory**, along links, too. -/
structure ComesTo (t : FileTree) (slashes : Nat) (names : List String) (place : Place) : Prop where
  leads : Leads t true 40 (t.start ⟨slashes, []⟩) names place
  directory : t.entry? place = some .directory

theorem ComesTo.walk (h : t.ComesTo slashes names place) (hwalkable : Walkable ⟨slashes, names⟩) :
    t.walk true ⟨slashes, names⟩ = .ok place :=
  walk_eq_ok.2 ⟨hwalkable, h.leads⟩

theorem kindOf_of_walk (hwalk : t.walk true path = .ok p) : t.kindOf path =
    match t.entry? p with
    | some (.file _) => .ok .file
    | some .directory => .ok .directory
    | _ => .error .missing := by
  unfold FileTree.kindOf
  exact hwalk ▸ rfl

theorem comesTo_of_kindOf (h : t.kindOf ⟨slashes, names⟩ = .ok .directory) : ∃ place, t.ComesTo slashes names place := by
  unfold FileTree.kindOf at h
  split at h
  · cases h
  · rename_i place hwalk
    split at h
    · cases h
    · rename_i hdir
      exact ⟨place, (walk_eq_ok.1 hwalk).2, hdir⟩
    · cases h

theorem ComesTo.kindOf (h : t.ComesTo slashes names place) (hwalkable : Walkable ⟨slashes, names⟩) :
    t.kindOf ⟨slashes, names⟩ = .ok .directory := by
  rw [kindOf_of_walk (h.walk hwalkable), h.directory]

/-- The path comes to the same directory in a tree that keeps all but files. -/
theorem ComesTo.kept (h : t.ComesTo slashes names place) (hhome : t'.home = t.home)
    (hkeep : ∀ {q e}, t.entry? q = some e → t'.entry? q = some e ∨ ∃ text, e = .file text) :
    t'.ComesTo slashes names place := by
  have hdirectory : t'.entry? place = some .directory := by
    refine (hkeep h.directory).resolve_right ?_
    rintro ⟨text, htext⟩
    cases htext
  refine ⟨?_, hdirectory⟩
  rw [start_congr hhome]
  refine h.leads.kept hkeep fun target hlink => ?_
  rw [hdirectory] at hlink
  cases hlink

theorem ComesTo.go_on (h : t.ComesTo slashes names place) :
    ∃ m, ∀ {throughLast : Bool} {more : List String}, more ≠ [] →
      t.walkLinks throughLast 40 (t.start ⟨slashes, []⟩) (names ++ more) = t.walkLinks throughLast m place more := by
  obtain ⟨m, hm⟩ := h.leads.go_on h.directory
  exact ⟨m, fun hmore => hm fun hnil => absurd hnil hmore⟩

theorem ComesTo.into (h : t.ComesTo slashes names place) (hname : Downward name)
    (hdir : t.entry? (place ++ [name]) = some .directory) : t.ComesTo slashes (names ++ [name]) (place ++ [name]) := by
  obtain ⟨m, hm⟩ := h.go_on
  refine ⟨walkLinks_eq_ok.1 ?_, hdir⟩
  rw [hm (by simp)]
  exact (Leads.into hname hdir .here).walkLinks

/-- A path goes on through the directories below the one that it comes to. -/
theorem ComesTo.through (h : t.ComesTo slashes before place) (hwellFormed : t.WellFormed) (hdown : ∀ m ∈ names, Downward m)
    (hdir : t.entry? (place ++ names) = some .directory) : t.ComesTo slashes (before ++ names) (place ++ names) := by
  induction names using List.reverseRecOn with
  | nil => rwa [List.append_nil, List.append_nil]
  | append_singleton names name ih =>
    rw [← List.append_assoc] at hdir ⊢
    rw [← List.append_assoc]
    have habove := ih (fun m hm => hdown m (List.mem_append_left _ hm)) (hwellFormed.directory_above hdir)
    exact habove.into (hdown name (by simp)) hdir

/-- What one more name of the path leads to. -/
theorem ComesTo.walk_last (h : t.ComesTo slashes names place) (hwalkable : Walkable ⟨slashes, names ++ [name]⟩)
    (hname : Downward name) (hlink : ∀ target, t.entry? (place ++ [name]) = some (.link target) → throughLast = false) :
    t.walk throughLast ⟨slashes, names ++ [name]⟩ = .ok (place ++ [name]) := by
  obtain ⟨m, hm⟩ := h.go_on
  rw [walk_of_walkable hwalkable, show t.start ⟨slashes, names ++ [name]⟩ = t.start ⟨slashes, []⟩ from rfl, hm (by simp)]
  exact (Leads.last hname hlink).walkLinks

end FileTree

/-! ## Making directories along a clear way -/

/-- **A way that was made**: directories are added along it and nowhere else. -/
structure MadeWay (t : FileTree) (place : Place) (t' : FileTree) : Prop where
  adds : AddsDirectories t t'
  wellFormed : t'.WellFormed
  there : t'.entry? place = some .directory
  elsewhere : ∀ {p}, ¬p <+: place → t'.entry? p = t.entry? p

theorem MadeWay.refl (h : t.WellFormed) (hdir : t.entry? place = some .directory) : MadeWay t place t :=
  ⟨.refl t, h, hdir, fun _ => rfl⟩

theorem MadeWay.comesTo (hway : MadeWay t (place ++ names) t') (hbase : t.ComesTo slashes before place)
    (hdown : ∀ m ∈ names, Downward m) : t'.ComesTo slashes (before ++ names) (place ++ names) :=
  (hbase.kept hway.adds.home fun he => .inl (hway.adds.keeps he)).through hway.wellFormed hdown hway.there

theorem makeDirectory_occupied (hwalk : t.walk false path = .ok p) (hsome : t.entry? p ≠ none) :
    t.makeDirectory path = (.error .occupied, t) := by
  rw [FileTree.makeDirectory, hwalk]
  exact if_pos (Option.isSome_iff_ne_none.2 hsome)

theorem makeDirectory_vacant (hwalk : t.walk false path = .ok p) (hnone : t.entry? p = none) :
    t.makeDirectory path = (.ok (), t.put p .directory) := by
  rw [FileTree.makeDirectory, hwalk]
  dsimp only
  rw [hnone]
  rfl

theorem madeWay_put (h : t.WellFormed) (hparent : t.entry? p = some .directory) (hnone : t.entry? (p ++ [name]) = none) :
    MadeWay t (p ++ [name]) (t.put (p ++ [name]) .directory) := by
  have hne : p ++ [name] ≠ [] := by simp
  refine ⟨addsDirectories_put hnone, h.put hparent (by rw [hnone]; nofun) .directory, ?_, fun {q} hq => ?_⟩
  · rw [entry?_put hne, if_pos rfl]
  · rw [entry?_put hne, if_neg]
    rintro rfl
    exact hq (List.prefix_refl _)

theorem makeUpwards_made (hmake : t.makeDirectory ⟨slashes, names⟩ = (.ok (), t')) (existing : Bool) :
    (makeUpwards slashes names.reverse existing : StateM FileTree _) t = (.ok (), t') := by
  cases names using List.reverseRecOn with
  | nil =>
    rw [List.reverse_nil, makeUpwards_nil, hmake]
    rfl
  | append_singleton names name =>
    have hrev : (names ++ [name]).reverse = name :: names.reverse := by simp
    rw [hrev, makeUpwards_cons, ← hrev, List.reverse_reverse, hmake]
    rfl

theorem makeUpwards_refused {e : FileError} (hmake : t.makeDirectory ⟨slashes, names⟩ = (.error e, t)) (he : e ≠ .missing)
    (existing : Bool) : (makeUpwards slashes names.reverse existing : StateM FileTree _) t =
      (t.accepted existing ⟨slashes, names⟩ (.error e), t) := by
  cases names using List.reverseRecOn with
  | nil => rw [List.reverse_nil, makeUpwards_nil, hmake]
  | append_singleton names name =>
    have hrev : (names ++ [name]).reverse = name :: names.reverse := by simp
    rw [hrev, makeUpwards_cons, ← hrev, List.reverse_reverse, hmake]
    cases e with
    | missing => exact absurd rfl he
    | _ => rfl

/-- Where the directory above is missing, it is made first, and the attempt made a second time. -/
theorem makeUpwards_missing (hmake : t.makeDirectory ⟨slashes, names ++ [name]⟩ = (.error .missing, t)) (existing : Bool) :
    (makeUpwards slashes (names ++ [name]).reverse existing : StateM FileTree _) t =
      match (makeUpwards slashes names.reverse true : StateM FileTree _) t with
      | (.error e, t₁) => (.error e, t₁)
      | (.ok (), t₁) =>
        (accepted (t₁.makeDirectory ⟨slashes, names ++ [name]⟩).2 existing ⟨slashes, names ++ [name]⟩
          (t₁.makeDirectory ⟨slashes, names ++ [name]⟩).1, (t₁.makeDirectory ⟨slashes, names ++ [name]⟩).2) := by
  have hrev : (names ++ [name]).reverse = name :: names.reverse := by simp
  rw [hrev, makeUpwards_cons, ← hrev, List.reverse_reverse]
  exact hmake ▸ rfl

/-- The path of a directory that is there is left alone. -/
theorem makeUpwards_there (h : t.ComesTo slashes names place) (hwalkable : Walkable ⟨slashes, names⟩) :
    (makeUpwards slashes names.reverse true : StateM FileTree _) t = (.ok (), t) := by
  obtain ⟨q, hstop, hsome⟩ := h.leads.stop (by rw [h.directory]; nofun)
  have hmake : t.makeDirectory ⟨slashes, names⟩ = (.error .occupied, t) :=
    makeDirectory_occupied (walk_eq_ok.2 ⟨hwalkable, hstop⟩) hsome
  rw [makeUpwards_refused hmake (by decide), accepted, h.kindOf hwalkable]
  rfl

/-- One more directory, once the one above it is there or has been made. -/
theorem makeUpwards_vacant (h : t.WellFormed) (hbase : t.ComesTo slashes before place)
    (hwalkable : Walkable ⟨slashes, before ++ names ++ [name]⟩) (hdown : ∀ m ∈ names ++ [name], Downward m)
    (hclear : t.ClearWay place names) (hnone : t.entry? (place ++ names ++ [name]) = none) (existing : Bool)
    (habove : t.entry? (place ++ names) = none →
      ∃ t₂, (makeUpwards slashes (before ++ names).reverse true : StateM FileTree _) t = (.ok (), t₂) ∧
        MadeWay t (place ++ names) t₂) :
    ∃ t', (makeUpwards slashes (before ++ names ++ [name]).reverse existing : StateM FileTree _) t = (.ok (), t') ∧
      MadeWay t (place ++ names ++ [name]) t' := by
  have hname : Downward name := hdown name (by simp)
  have hnames : ∀ m ∈ names, Downward m := fun m hm => hdown m (List.mem_append_left _ hm)
  obtain hfree | hthere := hclear names (List.prefix_refl _)
  · have hmissing : t.makeDirectory ⟨slashes, before ++ names ++ [name]⟩ = (.error .missing, t) := by
      obtain ⟨m, hm⟩ := hbase.go_on
      rw [FileTree.makeDirectory, walk_of_walkable hwalkable]
      dsimp only
      rw [List.append_assoc, show t.start ⟨slashes, before ++ (names ++ [name])⟩ = t.start ⟨slashes, []⟩ from rfl,
        hm (by simp), hclear.walkLinks_missing false m (by simp) hnames hbase.directory hfree]
    obtain ⟨t₂, hmake, hway⟩ := habove hfree
    have hnone₂ : t₂.entry? (place ++ names ++ [name]) = none := by
      rw [hway.elsewhere (not_append_isPrefix _ (by simp)), hnone]
    have hwalk : t₂.walk false ⟨slashes, before ++ names ++ [name]⟩ = .ok (place ++ names ++ [name]) :=
      (hway.comesTo hbase hnames).walk_last hwalkable hname fun _ _ => rfl
    have hput := madeWay_put hway.wellFormed hway.there hnone₂
    refine ⟨t₂.put (place ++ names ++ [name]) .directory, ?_, hway.adds.trans hput.adds, hput.wellFormed, hput.there,
      fun {p} hp => ?_⟩
    · rw [makeUpwards_missing hmissing, hmake]
      dsimp only
      rw [makeDirectory_vacant hwalk hnone₂]
      rfl
    · rw [hput.elsewhere hp, hway.elsewhere fun hpre => hp (hpre.trans (List.prefix_append _ _))]
  · have hwalk : t.walk false ⟨slashes, before ++ names ++ [name]⟩ = .ok (place ++ names ++ [name]) :=
      (hbase.through h hnames hthere).walk_last hwalkable hname fun _ _ => rfl
    exact ⟨t.put (place ++ names ++ [name]) .directory, makeUpwards_made (makeDirectory_vacant hwalk hnone) existing,
      madeWay_put h hthere hnone⟩

/-- **Directories are made along a clear way**, one after the other. -/
theorem makeUpwards_clear (h : t.WellFormed) (hbase : t.ComesTo slashes before place)
    (hwalkable : Walkable ⟨slashes, before ++ names⟩) (hdown : ∀ m ∈ names, Downward m) (hclear : t.ClearWay place names) :
    ∃ t', (makeUpwards slashes (before ++ names).reverse true : StateM FileTree _) t = (.ok (), t') ∧
      MadeWay t (place ++ names) t' := by
  induction names using List.reverseRecOn with
  | nil =>
    rw [List.append_nil] at hwalkable ⊢
    rw [List.append_nil]
    exact ⟨t, makeUpwards_there hbase hwalkable, .refl h hbase.directory⟩
  | append_singleton names name ih =>
    rw [← List.append_assoc] at hwalkable ⊢
    rw [← List.append_assoc]
    have hinitial : t.ClearWay place names := hclear.initial (List.prefix_append _ _)
    have habove := ih (walkable_initial hwalkable) (fun m hm => hdown m (List.mem_append_left _ hm)) hinitial
    obtain hnone | hthere := hclear (names ++ [name]) (List.prefix_refl _)
    · exact makeUpwards_vacant h hbase hwalkable hdown hinitial (by rwa [List.append_assoc]) true fun _ => habove
    · have hcomes := hbase.through h hdown hthere
      rw [← List.append_assoc, ← List.append_assoc] at hcomes
      exact ⟨t, makeUpwards_there hcomes hwalkable, .refl h hcomes.directory⟩

/-! ## How far a path leads -/

/-- **A path is followed as far as there are directories.**  It comes to one with all its names, or there is a first name
behind which there is none: nothing stands there, or something does that does not lead to a directory. -/
theorem furthest : ∀ {behind before : List String} {place : Place}, t.ComesTo slashes before place →
    (∀ name ∈ behind, Downward name) → (∃ q, t.ComesTo slashes (before ++ behind) q) ∨
      ∃ there p name more, before ++ behind = there ++ [name] ++ more ∧ t.ComesTo slashes there p ∧
        (∀ m ∈ name :: more, Downward m) ∧ (t.entry? (p ++ [name]) = none ∨
          t.entry? (p ++ [name]) ≠ none ∧ ¬∃ q, t.ComesTo slashes (there ++ [name]) q)
  | [], before, place, hbase, _ => .inl ⟨place, by rwa [List.append_nil]⟩
  | name :: rest, before, place, hbase, hdown => by
    have hsplit : before ++ name :: rest = before ++ [name] ++ rest := by rw [List.append_assoc]; rfl
    by_cases hnext : ∃ q, t.ComesTo slashes (before ++ [name]) q
    · obtain ⟨q, hq⟩ := hnext
      rw [hsplit]
      exact furthest hq fun m hm => hdown m (List.mem_cons_of_mem _ hm)
    · by_cases hnone : t.entry? (place ++ [name]) = none
      · exact .inr ⟨before, place, name, rest, hsplit, hbase, hdown, .inl hnone⟩
      · exact .inr ⟨before, place, name, rest, hsplit, hbase, hdown, .inr ⟨hnone, hnext⟩⟩

/-! What is blocked by something that leads to no directory -/

section Blocked

variable (h : t.WellFormed) (hbase : t.ComesTo slashes names place) (hblocked : ¬∃ q, t.ComesTo slashes (names ++ [name]) q)
include h hbase hblocked

theorem blocked_leads (hmore : more ≠ []) :
    ¬Leads t throughLast 40 (t.start ⟨slashes, []⟩) (names ++ [name] ++ more) p := by
  intro hleads
  obtain ⟨m, hm⟩ := hbase.go_on
  have hrest : Leads t throughLast m place ([name] ++ more) p := by
    refine walkLinks_eq_ok.1 ((hm (by simp)).symm.trans ?_)
    rw [← List.append_assoc]
    exact hleads.walkLinks
  obtain ⟨q, hq, hdir⟩ := hrest.stage h rfl hmore hbase.directory
  exact hblocked ⟨q, walkLinks_eq_ok.1 ((hm (by simp)).trans hq.walkLinks), hdir⟩

theorem blocked_kindOf (more : List String) : t.kindOf ⟨slashes, names ++ [name] ++ more⟩ ≠ .ok .directory := by
  intro hkind
  obtain ⟨q, hq⟩ := comesTo_of_kindOf hkind
  by_cases hmore : more = []
  · subst hmore
    rw [List.append_nil] at hq
    exact hblocked ⟨q, hq⟩
  · exact blocked_leads h hbase hblocked hmore hq.leads

/-- **Behind what is no directory nothing is made.** -/
theorem makeUpwards_blocked (hname : Downward name) (hsome : t.entry? (place ++ [name]) ≠ none) (existing : Bool)
    (hwalkable : Walkable ⟨slashes, names ++ [name] ++ more⟩) :
    ∃ e, (makeUpwards slashes (names ++ [name] ++ more).reverse existing : StateM FileTree _) t = (.error e, t) := by
  have haccepted : ∀ (existing : Bool) (e : FileError) (more : List String),
      t.accepted existing ⟨slashes, names ++ [name] ++ more⟩ (.error e) = .error e := by
    intro existing e more
    refine if_neg fun haccepted => blocked_kindOf h hbase hblocked more ?_
    simp only [Bool.and_eq_true, decide_eq_true_eq] at haccepted
    exact haccepted.2
  induction more using List.reverseRecOn generalizing existing with
  | nil =>
    rw [List.append_nil] at hwalkable ⊢
    have hmake := makeDirectory_occupied (hbase.walk_last hwalkable hname fun _ _ => rfl) hsome
    have hrefused := haccepted existing .occupied []
    rw [List.append_nil] at hrefused
    exact ⟨.occupied, by rw [makeUpwards_refused hmake (by decide), hrefused]⟩
  | append_singleton more last ih =>
    rw [← List.append_assoc] at hwalkable ⊢
    cases hwalk : t.walk false ⟨slashes, names ++ [name] ++ more ++ [last]⟩ with
    | ok p =>
      have hleads := (walk_eq_ok.1 hwalk).2
      rw [List.append_assoc] at hleads
      exact absurd hleads (blocked_leads h hbase hblocked (by simp))
    | error e =>
      have hmake : t.makeDirectory ⟨slashes, names ++ [name] ++ more ++ [last]⟩ = (.error e, t) := by
        rw [FileTree.makeDirectory, hwalk]
      by_cases he : e = .missing
      · subst he
        obtain ⟨e', habove⟩ := ih true (walkable_initial hwalkable)
        exact ⟨e', by rw [makeUpwards_missing hmake, habove]⟩
      · have hrefused := haccepted existing e (more ++ [last])
        rw [← List.append_assoc] at hrefused
        exact ⟨e, by rw [makeUpwards_refused hmake he, hrefused]⟩

/-- The output directory is refused, or cannot be made, before anything is changed. -/
theorem prepare_blocked (hname : Downward name) (hsome : t.entry? (place ++ [name]) ≠ none) (overwrite : Bool)
    (hwalkable : Walkable ⟨slashes, names ++ [name] ++ more⟩) :
    ∃ e, (prepare ⟨slashes, names ++ [name] ++ more⟩ overwrite : StateM FileTree _) t = (.error e, t) := by
  rw [prepare_eq]
  cases hkind : t.kindOf ⟨slashes, names ++ [name] ++ more⟩ with
  | error e =>
    obtain ⟨e', hmake⟩ := makeUpwards_blocked h hbase hblocked hname hsome false hwalkable
    dsimp only
    rw [createOutput_eq, hmake]
    split
    · exact ⟨_, rfl⟩
    · exact ⟨_, rfl⟩
  | ok kind =>
    cases kind with
    | file => cases overwrite <;> exact ⟨_, rfl⟩
    | directory => exact absurd hkind (blocked_kindOf h hbase hblocked more)

end Blocked

/-! ## The output directory -/

/-- **A steady output path**: from a directory that is there it goes down by names, and if the directory at its end is to be
removed, its way does not lead through that.  Links are followed, and the way to the directory that is there may go up. -/
structure Steady (t : FileTree) (dir : Path) (overwrite : Bool) : Prop where
  way : ∃ before behind place, dir.parts = before ++ behind ∧ behind ≠ [] ∧ (∀ name ∈ behind, Downward name) ∧
    t.ComesTo dir.slashes before place
  apart : overwrite = true → ∀ p, t.walk false dir = .ok p → t.entry? p = some .directory →
    ∃ place, ComesTo (t.remove p) dir.slashes dir.parts.dropLast place

/-- A path that goes down to a directory by the names of its place is steady. -/
theorem steady_of_directory (h : t.WellFormed) (hne : dir.parts ≠ []) (hdown : ∀ name ∈ dir.parts, Downward name)
    (hthere : t.entry? (t.start dir ++ dir.parts) = some .directory) (overwrite : Bool) : Steady t dir overwrite := by
  obtain ⟨slashes, parts⟩ := dir
  cases parts using List.reverseRecOn with
  | nil => exact absurd rfl hne
  | append_singleton names name =>
    have hnames : ∀ m ∈ names, Downward m := fun m hm => hdown m (List.mem_append_left _ hm)
    have hstart : t.ComesTo slashes [] (t.start ⟨slashes, []⟩) := ⟨.here, h.directory_above hthere⟩
    have hthere : t.entry? (t.start ⟨slashes, []⟩ ++ names ++ [name]) = some .directory := by
      rw [List.append_assoc]
      exact hthere
    refine ⟨⟨[], names ++ [name], _, rfl, by simp, hdown, hstart⟩, fun _ p hwalk _ => ?_⟩
    have hcomes := hstart.through h hnames (h.directory_above hthere)
    have hlast := hcomes.walk_last (walk_eq_ok.1 hwalk).1 (hdown name (by simp)) fun _ _ => rfl
    obtain rfl : t.start ⟨slashes, []⟩ ++ names ++ [name] = p := Except.ok.inj (hlast.symm.trans hwalk)
    have hkept : ∀ {r}, r <+: names → FileTree.entry? (t.remove (t.start ⟨slashes, []⟩ ++ names ++ [name]))
        (t.start ⟨slashes, []⟩ ++ r) = some .directory := by
      rintro r ⟨s, rfl⟩
      have hsplit : t.start ⟨slashes, []⟩ ++ (r ++ s) ++ [name] = t.start ⟨slashes, []⟩ ++ r ++ (s ++ [name]) := by
        simp only [List.append_assoc]
      rw [hsplit] at hthere ⊢
      rw [entry?_remove (by simp), if_neg (not_append_isPrefix _ (by simp))]
      exact h.directory_above hthere
    have hbase : ComesTo (t.remove (t.start ⟨slashes, []⟩ ++ names ++ [name])) slashes [] (t.start ⟨slashes, []⟩) := by
      refine ⟨.here, ?_⟩
      have := hkept List.nil_prefix
      rwa [List.append_nil] at this
    have hparent := hbase.through (h.remove (by simp)) hnames (hkept (List.prefix_refl _))
    refine ⟨t.start ⟨slashes, []⟩ ++ names, ?_⟩
    rwa [List.dropLast_concat]

/-- The output directory stands empty. -/
structure Emptied (dir : Path) (place : Place) (t : FileTree) : Prop where
  wellFormed : t.WellFormed
  there : t.ComesTo dir.slashes dir.parts place
  empty : ∀ r, r ≠ [] → t.entry? (place ++ r) = none

theorem createOutput_clear (h : t.WellFormed) (hbase : t.ComesTo slashes before place)
    (hwalkable : Walkable ⟨slashes, before ++ names ++ [name]⟩) (hdown : ∀ m ∈ names ++ [name], Downward m)
    (hclear : t.ClearWay place names) (hnone : t.entry? (place ++ names ++ [name]) = none) :
    ∃ t', (createOutput ⟨slashes, before ++ names ++ [name]⟩ : StateM FileTree _) t = (.ok (), t') ∧
      Emptied ⟨slashes, before ++ names ++ [name]⟩ (place ++ names ++ [name]) t' := by
  have habove := makeUpwards_clear h hbase (walkable_initial hwalkable) (fun m hm => hdown m (List.mem_append_left _ hm)) hclear
  obtain ⟨t', hmake, hway⟩ := makeUpwards_vacant h hbase hwalkable hdown hclear hnone false fun _ => habove
  refine ⟨t', ?_, hway.wellFormed, ?_, fun r hr => ?_⟩
  · rw [createOutput_eq, hmake]
    rfl
  · rw [List.append_assoc] at hway ⊢
    rw [List.append_assoc]
    exact hway.comesTo hbase hdown
  · rw [hway.elsewhere (not_append_isPrefix _ hr)]
    exact h.vacant_below hnone r

/-- Where nothing stands, the output directory is made. -/
theorem prepare_vacant (h : t.WellFormed) (hbase : t.ComesTo slashes before place)
    (hwalkable : Walkable ⟨slashes, before ++ [name] ++ more⟩) (hdown : ∀ m ∈ name :: more, Downward m)
    (hnone : t.entry? (place ++ [name]) = none) (overwrite : Bool) :
    ∃ t' p, (prepare ⟨slashes, before ++ [name] ++ more⟩ overwrite : StateM FileTree _) t = (.ok (), t') ∧
      Emptied ⟨slashes, before ++ [name] ++ more⟩ p t' := by
  have hbelow : ∀ r, t.entry? (place ++ (name :: r)) = none := by
    intro r
    have := h.vacant_below hnone r
    rwa [List.append_assoc] at this
  have hkind : t.kindOf ⟨slashes, before ++ [name] ++ more⟩ = .error .missing := by
    obtain ⟨m, hm⟩ := hbase.go_on
    have hwalk : t.walk true ⟨slashes, before ++ [name] ++ more⟩ =
        if more.isEmpty then .ok (place ++ [name]) else .error .missing := by
      rw [walk_of_walkable hwalkable]
      dsimp only
      rw [List.append_assoc]
      exact (hm (by simp)).trans (walkLinks_vacant (hdown name List.mem_cons_self) hnone)
    cases more with
    | nil => rw [kindOf_of_walk hwalk, hnone]
    | cons _ _ => rw [FileTree.kindOf, hwalk]; rfl
  obtain ⟨names, last, hlast⟩ : ∃ names last, name :: more = names ++ [last] :=
    ⟨_, _, (List.dropLast_concat_getLast (List.cons_ne_nil name more)).symm⟩
  have hsplit : before ++ [name] ++ more = before ++ names ++ [last] := by
    rw [List.append_assoc, List.append_assoc, ← hlast]
    rfl
  have hclear : t.ClearWay place names := by
    intro r hr
    cases r with
    | nil => exact .inr (by rw [List.append_nil]; exact hbase.directory)
    | cons m r =>
      have hpre : m :: r <+: name :: more := by
        rw [hlast]
        exact hr.trans (List.prefix_append _ _)
      obtain ⟨rfl, -⟩ := List.cons_prefix_cons.1 hpre
      exact .inl (hbelow r)
  rw [hlast] at hdown
  rw [hsplit] at hwalkable hkind ⊢
  obtain ⟨t', hcreate, hemptied⟩ := createOutput_clear h hbase hwalkable hdown hclear
    (by rw [List.append_assoc, ← hlast]; exact hbelow more)
  refine ⟨t', _, ?_, hemptied⟩
  rw [prepare_eq, hkind]
  exact hcreate

/-- What is left where a place was removed was there before, and when only what is below the place was gone. -/
theorem kept_of_removed (hp : p ≠ []) {entry : Entry} (he : FileTree.entry? (t.remove p) q = some entry) :
    t.entry? q = some entry ∧ FileTree.entry? (t.clear p) q = some entry := by
  rw [entry?_remove hp] at he
  split at he
  · cases he
  · rename_i hout
    exact ⟨he, by rw [entry?_clear, if_neg fun hpre => hout hpre.1, he]⟩

/-- A directory is removed if the way to it does not lead through it. -/
theorem removeTree_removed (hwalkable : Walkable ⟨slashes, names ++ [name]⟩) (hname : Downward name)
    (hwalk : t.walk false ⟨slashes, names ++ [name]⟩ = .ok p) (hdir : t.entry? p = some .directory)
    (hbase : ComesTo (t.remove p) slashes names place) (hp : p ≠ []) :
    t.removeTree ⟨slashes, names ++ [name]⟩ = (.ok (), t.remove p) := by
  have hcleared : ComesTo (t.clear p) slashes names place :=
    hbase.kept rfl fun he => .inl (kept_of_removed hp he).2
  have hagain : FileTree.walk (t.clear p) false ⟨slashes, names ++ [name]⟩ = .ok (place ++ [name]) :=
    hcleared.walk_last hwalkable hname fun _ _ => rfl
  rw [FileTree.removeTree, hwalk]
  dsimp only
  rw [hdir]
  dsimp only
  rw [if_neg (by simpa using hname.1), hagain]

/-- A directory that is there is removed, and made anew. -/
theorem createOutput_removed (h : t.WellFormed) (hwalkable : Walkable ⟨slashes, names ++ [name]⟩) (hname : Downward name)
    (hwalk : t.walk false ⟨slashes, names ++ [name]⟩ = .ok p)
    (hbase : ComesTo (t.remove p) slashes names place) (hp : p ≠ []) :
    ∃ t', (createOutput ⟨slashes, names ++ [name]⟩ : StateM FileTree _) (t.remove p) = (.ok (), t') ∧
      Emptied ⟨slashes, names ++ [name]⟩ p t' := by
  have hbefore : t.ComesTo slashes names place := hbase.kept rfl fun he => .inl (kept_of_removed hp he).1
  obtain rfl : place ++ [name] = p :=
    Except.ok.inj ((hbefore.walk_last hwalkable hname fun _ _ => rfl).symm.trans hwalk)
  have hclear : ClearWay (t.remove (place ++ [name])) place [] := by
    intro r hr
    rw [List.prefix_nil.1 hr, List.append_nil]
    exact .inr hbase.directory
  have hnone : FileTree.entry? (t.remove (place ++ [name])) (place ++ [] ++ [name]) = none := by
    rw [List.append_nil, entry?_remove hp, if_pos (List.prefix_refl _)]
  have hcreate := createOutput_clear (h.remove hp) hbase (by rwa [List.append_nil]) (by simpa using hname) hclear hnone
  rwa [List.append_nil, List.append_nil] at hcreate

/-- A directory that is there already is refused, or made anew. -/
theorem prepare_there (h : t.WellFormed) (hwalkable : Walkable ⟨slashes, names ++ [name]⟩) (hname : Downward name)
    (hthere : t.ComesTo slashes (names ++ [name]) q)
    (hapart : overwrite = true → ∀ p, t.walk false ⟨slashes, names ++ [name]⟩ = .ok p → t.entry? p = some .directory →
      ∃ place, ComesTo (t.remove p) slashes names place) :
    (∃ e, (prepare ⟨slashes, names ++ [name]⟩ overwrite : StateM FileTree _) t = (.error e, t)) ∨
      ∃ t' p, (prepare ⟨slashes, names ++ [name]⟩ overwrite : StateM FileTree _) t = (.ok (), t') ∧
        Emptied ⟨slashes, names ++ [name]⟩ p t' := by
  rw [prepare_eq, hthere.kindOf hwalkable]
  dsimp only
  cases overwrite with
  | false => exact .inl ⟨_, rfl⟩
  | true =>
    obtain ⟨p, hstop, -⟩ := hthere.leads.stop (by rw [hthere.directory]; nofun)
    have hwalk : t.walk false ⟨slashes, names ++ [name]⟩ = .ok p := walk_eq_ok.2 ⟨hwalkable, hstop⟩
    have hlast : (names ++ [name]).getLast? ≠ some ".." := by
      rw [List.getLast?_concat]
      simpa using hname.1
    rw [if_neg (by decide), if_neg (by decide)]
    by_cases hentry : t.entry? p = some .directory
    · have hp := hstop.ne_root (by simp) hlast
      obtain ⟨place, hplace⟩ := hapart rfl p hwalk hentry
      obtain ⟨t', hcreate, hemptied⟩ := createOutput_removed h hwalkable hname hwalk hplace hp
      refine .inr ⟨t', p, ?_, hemptied⟩
      rw [removeTree_removed hwalkable hname hwalk hentry hplace hp]
      exact hcreate
    · -- what is no directory by itself, but a link, is not removed
      rw [FileTree.removeTree, hwalk]
      dsimp only
      cases hother : t.entry? p with
      | none => exact .inl ⟨_, rfl⟩
      | some entry =>
        cases entry with
        | file text => exact .inl ⟨_, rfl⟩
        | link target => exact .inl ⟨_, rfl⟩
        | directory => exact absurd hother hentry

/-- A path that cannot be walked at all is refused. -/
theorem prepare_of_not_walkable (h : ¬Walkable dir) (t : FileTree) (overwrite : Bool) :
    ∃ e, (prepare dir overwrite : StateM FileTree _) t = (.error e, t) := by
  obtain ⟨e, he, hwalk⟩ := walk_of_not_walkable h t
  have hmake : t.makeDirectory ⟨dir.slashes, dir.parts⟩ = (.error e, t) := by
    rw [FileTree.makeDirectory, hwalk]
  rw [prepare_eq, FileTree.kindOf, hwalk]
  dsimp only
  rw [createOutput_eq, makeUpwards_refused hmake he, accepted_false]
  split
  · exact ⟨_, rfl⟩
  · exact ⟨_, rfl⟩

/-- **Along a steady output path**, the output directory is refused without any change, or it stands empty. -/
theorem prepare_steady (h : t.WellFormed) (hdir : Steady t dir overwrite) :
    (∃ e, (prepare dir overwrite : StateM FileTree _) t = (.error e, t)) ∨
      ∃ t' p, (prepare dir overwrite : StateM FileTree _) t = (.ok (), t') ∧ Emptied dir p t' := by
  by_cases hwalkable : Walkable dir
  case neg => exact .inl (prepare_of_not_walkable hwalkable t overwrite)
  obtain ⟨slashes, parts⟩ := dir
  obtain ⟨⟨before, behind, place, hsplit, hne, hdown, hbase⟩, hapart⟩ := hdir
  obtain rfl : parts = before ++ behind := hsplit
  obtain ⟨q, hthere⟩ | ⟨there, p, name, more, heq, hp, hmore, hcase⟩ := furthest hbase hdown
  · obtain ⟨names, name, rfl⟩ : ∃ names name, behind = names ++ [name] :=
      ⟨_, _, (List.dropLast_concat_getLast hne).symm⟩
    simp only [← List.append_assoc, List.dropLast_concat] at hwalkable hthere hapart ⊢
    exact prepare_there h hwalkable (hdown name (by simp)) hthere hapart
  · rw [heq] at hwalkable ⊢
    obtain hnone | ⟨hsome, hblocked⟩ := hcase
    · exact .inr (prepare_vacant h hp hwalkable hmore hnone overwrite)
    · exact .inl (prepare_blocked h hp hblocked (hmore name List.mem_cons_self) hsome overwrite hwalkable)

end Files
end TypedClient
