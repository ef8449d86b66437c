import TypedClient.Proofs.Files.Entries
/-!
# Walk — where a path leads

`Leads` says how a walk comes to its place, name by name and link by link; the walks of a tree are the ones that come to a
place (`walkLinks_eq_ok`).  A walk comes to the same place in a tree where all but files is kept (`Leads.kept`), and goes on
from a directory that its first names lead to (`Leads.go_on`).  Below a directory without links, a walk that goes up no more
than it went down stays below (`Leads.within`), and one that never goes up ends at the names that it was given
(`Leads.straight`).
-/
namespace TypedClient
namespace Files

/-- The start of a path in a tree: the root, or the working directory. -/
def FileTree.start (t : FileTree) (path : Path) : Place :=
  if path.isAbsolute then [] else t.home

namespace FileTree

theorem start_congr {t t' : FileTree} (h : t'.home = t.home) (path : Path) : t'.start path = t.start path := by
  rw [start, start, h]

variable {t t' : FileTree} {throughLast : Bool} {n : Nat} {place p P : Place} {name : String} {names rest : List String}

/-- Whether a walk goes down by a name: it is not `..`, and no longer than names can be. -/
def Downward (name : String) : Prop := name ≠ ".." ∧ name.utf8ByteSize ≤ longestName

instance (name : String) : Decidable (Downward name) := inferInstanceAs (Decidable (_ ∧ _))

/-- Where a link leads on, if so many links may still be followed. -/
def follow (t : FileTree) (throughLast : Bool) : Nat → Place → List String → Except FileError Place
  | 0, _, _ => .error .tooManyLinks
  | n + 1, place, names => t.walkLinks throughLast n place names

theorem walkLinks_eq (t : FileTree) (throughLast : Bool) (n : Nat) :
    t.walkLinks throughLast n = t.walkNames throughLast (t.follow throughLast n) := by
  cases n with
  | zero => rfl
  | succ n => rfl

/-! ## Single steps -/

theorem walkLinks_nil (t : FileTree) (throughLast : Bool) (n : Nat) (place : Place) :
    t.walkLinks throughLast n place [] = .ok place := by
  rw [walkLinks_eq, walkNames]

theorem walkLinks_up (t : FileTree) (throughLast : Bool) (n : Nat) (place : Place) (rest : List String) :
    t.walkLinks throughLast n place (".." :: rest) = t.walkLinks throughLast n place.dropLast rest := by
  rw [walkLinks_eq, walkNames, if_pos rfl]

/-- A step down, as what stands there has it. -/
theorem walkLinks_down (t : FileTree) (throughLast : Bool) (n : Nat) (place : Place) (hname : Downward name)
    (rest : List String) : t.walkLinks throughLast n place (name :: rest) =
      match t.entry? (place ++ [name]) with
      | some .directory => t.walkLinks throughLast n (place ++ [name]) rest
      | some (.file _) => if rest.isEmpty then .ok (place ++ [name]) else .error .notDirectory
      | some (.link target) =>
        if rest.isEmpty && !throughLast then .ok (place ++ [name])
        else t.follow throughLast n (if (Path.ofText target).isAbsolute then [] else place) ((Path.ofText target).parts ++ rest)
      | none => if rest.isEmpty then .ok (place ++ [name]) else .error .missing := by
  rw [walkLinks_eq, walkNames, if_neg hname.1]
  exact if_neg (Nat.not_lt.2 hname.2)

theorem walkLinks_into (hname : Downward name) (h : t.entry? (place ++ [name]) = some .directory) :
    t.walkLinks throughLast n place (name :: rest) = t.walkLinks throughLast n (place ++ [name]) rest := by
  rw [walkLinks_down t throughLast n place hname, h]

theorem walkLinks_vacant (hname : Downward name) (h : t.entry? (place ++ [name]) = none) :
    t.walkLinks throughLast n place (name :: rest) = if rest.isEmpty then .ok (place ++ [name]) else .error .missing := by
  rw [walkLinks_down t throughLast n place hname, h]

theorem walkLinks_tooLong (hname : name ≠ "..") (h : longestName < name.utf8ByteSize) :
    t.walkLinks throughLast n place (name :: rest) = .error .nameTooLong := by
  rw [walkLinks_eq, walkNames, if_neg hname, if_pos h]

/-! ## Walks that come to a place -/

/-- **How a walk comes to a place**, along so many links at most. -/
inductive Leads (t : FileTree) (throughLast : Bool) : Nat → Place → List String → Place → Prop where
  | here {n : Nat} {place : Place} : Leads t throughLast n place [] place
  | up {n : Nat} {place p : Place} {rest : List String} (h : Leads t throughLast n place.dropLast rest p) :
    Leads t throughLast n place (".." :: rest) p
  | into {n : Nat} {place p : Place} {name : String} {rest : List String} (hname : Downward name)
    (hentry : t.entry? (place ++ [name]) = some .directory) (h : Leads t throughLast n (place ++ [name]) rest p) :
    Leads t throughLast n place (name :: rest) p
  | vacant {n : Nat} {place : Place} {name : String} (hname : Downward name) (hentry : t.entry? (place ++ [name]) = none) :
    Leads t throughLast n place [name] (place ++ [name])
  | file {n : Nat} {place : Place} {name text : String} (hname : Downward name)
    (hentry : t.entry? (place ++ [name]) = some (.file text)) : Leads t throughLast n place [name] (place ++ [name])
  | unfollowed {n : Nat} {place : Place} {name target : String} (hname : Downward name)
    (hentry : t.entry? (place ++ [name]) = some (.link target)) (hlast : throughLast = false) :
    Leads t throughLast n place [name] (place ++ [name])
  | link {n : Nat} {place p : Place} {name target : String} {rest : List String} (hname : Downward name)
    (hentry : t.entry? (place ++ [name]) = some (.link target)) (hrest : (rest.isEmpty && !throughLast) = false)
    (h : Leads t throughLast n (if (Path.ofText target).isAbsolute then [] else place)
      ((Path.ofText target).parts ++ rest) p) : Leads t throughLast (n + 1) place (name :: rest) p

theorem Leads.walkLinks (h : Leads t throughLast n place names p) : t.walkLinks throughLast n place names = .ok p := by
  induction h with
  | here => exact walkLinks_nil t throughLast _ _
  | up _ ih => exact (walkLinks_up t throughLast _ _ _).trans ih
  | into hname hentry _ ih => exact (walkLinks_into hname hentry).trans ih
  | vacant hname hentry => exact walkLinks_vacant hname hentry
  | file hname hentry =>
    rw [walkLinks_down t throughLast _ _ hname, hentry]
    rfl
  | unfollowed hname hentry hlast =>
    rw [walkLinks_down t throughLast _ _ hname, hentry]
    dsimp only
    rw [hlast]
    rfl
  | link hname hentry hrest _ ih =>
    rw [walkLinks_down t throughLast _ _ hname, hentry]
    dsimp only
    rw [hrest]
    exact ih

theorem leads_of_walkLinks : ∀ (n : Nat) (place : Place) (names : List String),
    t.walkLinks throughLast n place names = .ok p → Leads t throughLast n place names p
  | n, place, [], h => by
    rw [walkLinks_nil] at h
    cases h
    exact .here
  | n, place, name :: rest, h => by
    by_cases hup : name = ".."
    · subst hup
      rw [walkLinks_up] at h
      exact .up (leads_of_walkLinks n _ rest h)
    by_cases hsize : longestName < name.utf8ByteSize
    · rw [walkLinks_tooLong hup hsize] at h
      cases h
    have hname : Downward name := ⟨hup, Nat.not_lt.1 hsize⟩
    rw [walkLinks_down t throughLast n place hname] at h
    cases hentry : t.entry? (place ++ [name]) with
    | none =>
      simp only [hentry] at h
      cases rest with
      | nil =>
        cases h
        exact .vacant hname hentry
      | cons _ _ => cases h
    | some entry =>
      cases entry with
      | directory =>
        simp only [hentry] at h
        exact .into hname hentry (leads_of_walkLinks n _ rest h)
      | file text =>
        simp only [hentry] at h
        cases rest with
        | nil =>
          cases h
          exact .file hname hentry
        | cons _ _ => cases h
      | link target =>
        simp only [hentry] at h
        cases hlast : (rest.isEmpty && !throughLast) with
        | true =>
          rw [hlast] at h
          simp only [Bool.and_eq_true, List.isEmpty_iff, Bool.not_eq_true'] at hlast
          obtain ⟨rfl, hlast⟩ := hlast
          cases h
          exact .unfollowed hname hentry hlast
        | false =>
          rw [hlast] at h
          -- the names of the link's target may be more than those that were left, but one link less can be followed
          cases n with
          | zero => cases h
          | succ n => exact .link hname hentry hlast (leads_of_walkLinks n _ _ h)
termination_by n _ names => (n, names.length)

/-- **The walks that come to a place.** -/
theorem walkLinks_eq_ok : t.walkLinks throughLast n place names = .ok p ↔ Leads t throughLast n place names p :=
  ⟨leads_of_walkLinks n place names, Leads.walkLinks⟩

/-- A walk comes to the place under its last name, whatever stands there, but for a link that it follows. -/
theorem Leads.last (hname : Downward name)
    (hlink : ∀ target, t.entry? (place ++ [name]) = some (.link target) → throughLast = false) :
    Leads t throughLast n place [name] (place ++ [name]) := by
  cases hentry : t.entry? (place ++ [name]) with
  | none => exact .vacant hname hentry
  | some entry =>
    cases entry with
    | directory => exact .into hname hentry .here
    | file text => exact .file hname hentry
    | link target => exact .unfollowed hname hentry (hlink target hentry)

/-- **A walk comes to the same place** in a tree that keeps all but files, unless there is a new link at that place. -/
theorem Leads.kept (h : Leads t throughLast n place names p)
    (hkeep : ∀ {q e}, t.entry? q = some e → t'.entry? q = some e ∨ ∃ text, e = .file text)
    (hend : ∀ target, t'.entry? p = some (.link target) → t.entry? p = some (.link target)) :
    Leads t' throughLast n place names p := by
  have hdirectory : ∀ {q}, t.entry? q = some .directory → t'.entry? q = some .directory := by
    intro q hq
    refine (hkeep hq).resolve_right ?_
    rintro ⟨text, htext⟩
    cases htext
  have hlink : ∀ {q target}, t.entry? q = some (.link target) → t'.entry? q = some (.link target) := by
    intro q target hq
    refine (hkeep hq).resolve_right ?_
    rintro ⟨text, htext⟩
    cases htext
  induction h with
  | here => exact .here
  | up _ ih => exact .up (ih hend)
  | into hname hentry _ ih => exact .into hname (hdirectory hentry) (ih hend)
  | vacant hname hentry =>
    refine .last hname fun target hnew => ?_
    rw [hend target hnew] at hentry
    cases hentry
  | file hname hentry =>
    refine .last hname fun target hnew => ?_
    rw [hend target hnew] at hentry
    cases hentry
  | unfollowed hname hentry hlast => exact .unfollowed hname (hlink hentry) hlast
  | link hname hentry hrest _ ih => exact .link hname (hlink hentry) hrest (ih hend)

/-- A walk that does not end at a link is the same whether links at the end are followed or not. -/
theorem Leads.followed (h : Leads t false n place names p) (hp : ∀ target, t.entry? p ≠ some (.link target)) :
    Leads t true n place names p := by
  induction h with
  | here => exact .here
  | up _ ih => exact .up (ih hp)
  | into hname hentry _ ih => exact .into hname hentry (ih hp)
  | vacant hname hentry => exact .vacant hname hentry
  | file hname hentry => exact .file hname hentry
  | unfollowed _ hentry _ => exact absurd hentry (hp _)
  | link hname hentry _ _ ih => exact .link hname hentry (Bool.and_false _) (ih hp)

theorem Leads.ne_root (h : Leads t false n place names p) (hnames : names ≠ []) (hlast : names.getLast? ≠ some "..") :
    p ≠ [] := by
  have hbelow : ∀ {q : Place} {name : String}, q ++ [name] ≠ [] := by simp
  have hrest : ∀ {name : String} {rest : List String}, rest ≠ [] → (name :: rest).getLast? ≠ some ".." →
      rest.getLast? ≠ some ".." := by
    intro name rest hne hlast
    rwa [List.getLast?_cons_of_ne_nil hne] at hlast
  induction h with
  | here => exact absurd rfl hnames
  | @up n place p rest _ ih =>
    by_cases hne : rest = []
    · subst hne
      exact absurd rfl hlast
    · exact ih hne (hrest hne hlast)
  | @into n place p name rest _ _ h ih =>
    by_cases hne : rest = []
    · subst hne
      cases h
      exact hbelow
    · exact ih hne (hrest hne hlast)
  | vacant _ _ => exact hbelow
  | file _ _ => exact hbelow
  | unfollowed _ _ _ => exact hbelow
  | @link n place p name target rest _ _ hempty _ ih =>
    have hne : rest ≠ [] := by
      rintro rfl
      cases hempty
    refine ih (by simp [hne]) ?_
    rw [List.getLast?_append, List.getLast?_eq_some_getLast hne, Option.some_or, ← List.getLast?_eq_some_getLast hne]
    exact hrest hne hlast

/-- **A walk goes on from the directory that its first names lead to**, along the links that are left. -/
theorem Leads.go_on {through : Bool} (h : Leads t through n place names p) (hdir : t.entry? p = some .directory) :
    ∃ m, ∀ {throughLast : Bool} {more : List String}, (more = [] → throughLast = false → through = false) →
      t.walkLinks throughLast n place (names ++ more) = t.walkLinks throughLast m p more := by
  induction h with
  | here => exact ⟨_, fun _ => rfl⟩
  | up _ ih =>
    obtain ⟨m, hm⟩ := ih hdir
    refine ⟨m, fun {throughLast more} hmore => ?_⟩
    rw [List.cons_append, walkLinks_up]
    exact hm hmore
  | into hname hentry _ ih =>
    obtain ⟨m, hm⟩ := ih hdir
    refine ⟨m, fun {throughLast more} hmore => ?_⟩
    rw [List.cons_append, walkLinks_into hname hentry]
    exact hm hmore
  | vacant _ hentry =>
    rw [hdir] at hentry
    cases hentry
  | file _ hentry =>
    rw [hdir] at hentry
    cases hentry
  | unfollowed _ hentry _ =>
    rw [hdir] at hentry
    cases hentry
  | @link n place p name target rest hname hentry hrest _ ih =>
    obtain ⟨m, hm⟩ := ih hdir
    refine ⟨m, fun {throughLast more} hmore => ?_⟩
    -- a link at the end of the first names was followed on the first walk, so it is followed on the longer one
    have hfollowed : ((rest ++ more).isEmpty && !throughLast) = false := by
      cases rest with
      | cons _ _ => rfl
      | nil =>
        cases more with
        | cons _ _ => rfl
        | nil =>
          cases throughLast with
          | true => rfl
          | false =>
            rw [hmore rfl rfl] at hrest
            cases hrest
    rw [List.cons_append, walkLinks_down t throughLast _ _ hname, hentry]
    dsimp only
    rw [hfollowed, ← List.append_assoc]
    exact hm hmore

/-- Where a walk comes to something, the walk that does not follow a last link does, too. -/
theorem Leads.stop (h : Leads t true n place names p) (hsome : t.entry? p ≠ none) :
    ∃ q, Leads t false n place names q ∧ t.entry? q ≠ none := by
  induction h with
  | here => exact ⟨_, .here, hsome⟩
  | up _ ih =>
    obtain ⟨q, hq, hsome⟩ := ih hsome
    exact ⟨q, .up hq, hsome⟩
  | into hname hentry _ ih =>
    obtain ⟨q, hq, hsome⟩ := ih hsome
    exact ⟨q, .into hname hentry hq, hsome⟩
  | vacant _ hentry => exact absurd hentry hsome
  | file hname hentry => exact ⟨_, .file hname hentry, hsome⟩
  | unfollowed _ _ hlast => cases hlast
  | @link n place p name target rest hname hentry _ _ ih =>
    cases rest with
    | nil => exact ⟨_, .unfollowed hname hentry rfl, by rw [hentry]; nofun⟩
    | cons next rest =>
      obtain ⟨q, hq, hsome⟩ := ih hsome
      exact ⟨q, .link hname hentry rfl hq, hsome⟩

/-- **On the way of a walk there are directories**: the first names alone lead to one. -/
theorem Leads.stage (h : Leads t throughLast n place names p) (hwellFormed : t.WellFormed) : ∀ {first more : List String},
    names = first ++ more → more ≠ [] → t.entry? place = some .directory →
      ∃ q, Leads t true n place first q ∧ t.entry? q = some .directory := by
  have hend : ∀ {n place name first more}, [name] = first ++ more → more ≠ [] → t.entry? place = some .directory →
      ∃ q, Leads t true n place first q ∧ t.entry? q = some .directory := by
    intro n place name first more hsplit hmore hplace
    cases first with
    | nil => exact ⟨place, .here, hplace⟩
    | cons _ rest => exact absurd (List.append_eq_nil_iff.1 (List.cons.inj hsplit).2.symm).2 hmore
  induction h with
  | here => exact fun hsplit hmore _ => absurd (List.append_eq_nil_iff.1 hsplit.symm).2 hmore
  | @up n place p rest _ ih =>
    intro first more hsplit hmore hplace
    cases first with
    | nil => exact ⟨place, .here, hplace⟩
    | cons _ first =>
      obtain ⟨rfl, hrest⟩ := List.cons.inj hsplit
      obtain ⟨q, hq, hdir⟩ := ih hrest hmore (hwellFormed.directory_dropLast hplace)
      exact ⟨q, .up hq, hdir⟩
  | @into n place p name rest hname hentry _ ih =>
    intro first more hsplit hmore hplace
    cases first with
    | nil => exact ⟨place, .here, hplace⟩
    | cons _ first =>
      obtain ⟨rfl, hrest⟩ := List.cons.inj hsplit
      obtain ⟨q, hq, hdir⟩ := ih hrest hmore hentry
      exact ⟨q, .into hname hentry hq, hdir⟩
  | vacant _ _ => exact hend
  | file _ _ => exact hend
  | unfollowed _ _ _ => exact hend
  | @link n place p name target rest hname hentry _ _ ih =>
    intro first more hsplit hmore hplace
    cases first with
    | nil => exact ⟨place, .here, hplace⟩
    | cons _ first =>
      obtain ⟨rfl, hrest⟩ : name = _ ∧ rest = first ++ more := List.cons.inj hsplit
      have hsplit' : (Path.ofText target).parts ++ rest = (Path.ofText target).parts ++ first ++ more := by
        rw [hrest, List.append_assoc]
      have hstart : t.entry? (if (Path.ofText target).isAbsolute then [] else place) = some .directory := by
        split
        · rfl
        · exact hplace
      obtain ⟨q, hq, hdir⟩ := ih hsplit' hmore hstart
      exact ⟨q, .link hname hentry (Bool.and_false _) hq, hdir⟩

/-- **A walk that comes to a free place comes to it from a directory.** -/
theorem Leads.parent (h : Leads t throughLast n place names p) (hwellFormed : t.WellFormed)
    (hplace : t.entry? place = some .directory) (hnone : t.entry? p = none) :
    ∃ q name, p = q ++ [name] ∧ t.entry? q = some .directory := by
  induction h with
  | here =>
    rw [hplace] at hnone
    cases hnone
  | up _ ih => exact ih (hwellFormed.directory_dropLast hplace) hnone
  | into _ hentry _ ih => exact ih hentry hnone
  | vacant _ _ => exact ⟨_, _, rfl, hplace⟩
  | file _ hentry =>
    rw [hentry] at hnone
    cases hnone
  | unfollowed _ hentry _ =>
    rw [hentry] at hnone
    cases hnone
  | link _ _ _ _ ih =>
    refine ih ?_ hnone
    split
    · rfl
    · exact hplace

/-- A walk that comes to a place has gone down by all names that do not lead up. -/
theorem Leads.downward (h : Leads t throughLast n place names p) : ∀ name ∈ names, name ≠ ".." → Downward name := by
  induction h with
  | here => nofun
  | up _ ih => exact List.forall_mem_cons.2 ⟨fun hup => absurd rfl hup, ih⟩
  | into hname _ _ ih => exact List.forall_mem_cons.2 ⟨fun _ => hname, ih⟩
  | vacant hname _ => exact List.forall_mem_cons.2 ⟨fun _ => hname, nofun⟩
  | file hname _ => exact List.forall_mem_cons.2 ⟨fun _ => hname, nofun⟩
  | unfollowed hname _ _ => exact List.forall_mem_cons.2 ⟨fun _ => hname, nofun⟩
  | link hname _ _ _ ih => exact List.forall_mem_cons.2 ⟨fun _ => hname, fun m hm => ih m (List.mem_append_right _ hm)⟩

/-! ## Walks below a directory -/

/-- Whether names, from so many levels down on, never lead above the start. -/
def staysBelow : Nat → List String → Bool
  | _, [] => true
  | 0, name :: rest => name != ".." && staysBelow 1 rest
  | depth + 1, name :: rest => if name = ".." then staysBelow depth rest else staysBelow (depth + 2) rest

theorem staysBelow_down (depth : Nat) (hname : name ≠ "..") :
    staysBelow depth (name :: rest) = staysBelow (depth + 1) rest := by
  cases depth with
  | zero => rw [staysBelow, bne_iff_ne.2 hname, Bool.true_and]
  | succ depth => rw [staysBelow, if_neg hname]

theorem staysBelow_of_not_mem : ∀ {names : List String} (depth : Nat), ".." ∉ names → staysBelow depth names = true
  | [], depth, _ => by cases depth <;> rfl
  | name :: rest, depth, h => by
    obtain ⟨hname, hrest⟩ := List.ne_and_not_mem_of_not_mem_cons h
    rw [staysBelow_down depth hname.symm]
    exact staysBelow_of_not_mem (depth + 1) hrest

/-- Whether there are no links at a place and below it. -/
def LinkFree (t : FileTree) (P : Place) : Prop :=
  ∀ p target, P <+: p → t.entry? p ≠ some (.link target)

/-- **A walk that goes up no more than it went down stays below its start**, if there are no links there. -/
theorem Leads.within (h : Leads t throughLast n place names p) (hfree : t.LinkFree P) : ∀ {r}, place = P ++ r →
    staysBelow r.length names = true → P <+: p := by
  induction h with
  | here => exact fun hplace _ => ⟨_, hplace.symm⟩
  | up _ ih =>
    intro r hplace hstays
    cases r using List.reverseRecOn with
    | nil => cases hstays
    | append_singleton r last =>
      rw [List.length_append, List.length_singleton, staysBelow, if_pos rfl] at hstays
      refine ih (r := r) ?_ hstays
      rw [hplace, ← List.append_assoc, List.dropLast_concat]
  | into hname _ _ ih =>
    intro r hplace hstays
    rw [staysBelow_down _ hname.1] at hstays
    refine ih (r := r ++ [_]) (by rw [hplace, List.append_assoc]) ?_
    rwa [List.length_append, List.length_singleton]
  | vacant _ _ => exact fun hplace _ => ⟨_, by rw [hplace, List.append_assoc]⟩
  | file _ _ => exact fun hplace _ => ⟨_, by rw [hplace, List.append_assoc]⟩
  | unfollowed _ _ _ => exact fun hplace _ => ⟨_, by rw [hplace, List.append_assoc]⟩
  | link _ hentry _ _ _ =>
    intro r hplace _
    exact absurd hentry (hfree _ _ ⟨_, by rw [hplace, List.append_assoc]⟩)

/-- **A walk that never goes up ends at the names that it was given**, if there are no links there. -/
theorem Leads.straight (h : Leads t throughLast n place names p) (hfree : t.LinkFree P) : P <+: place → ".." ∉ names →
    p = place ++ names := by
  induction h with
  | here => exact fun _ _ => (List.append_nil _).symm
  | up _ _ => exact fun _ hup => absurd List.mem_cons_self hup
  | into _ _ _ ih =>
    intro hplace hup
    rw [ih (hplace.trans (List.prefix_append _ _)) fun hm => hup (List.mem_cons_of_mem _ hm), List.append_assoc]
    rfl
  | vacant _ _ => exact fun _ _ => rfl
  | file _ _ => exact fun _ _ => rfl
  | unfollowed _ _ _ => exact fun _ _ => rfl
  | link _ hentry _ _ _ => exact fun hplace _ => absurd hentry (hfree _ _ (hplace.trans (List.prefix_append _ _)))

/-! ## Whole paths -/

/-- Whether a path can be walked at all: it has no NUL in it, and is no longer than paths can be. -/
def Walkable (path : Path) : Prop :=
  path.text.toList.contains (Char.ofNat 0) = false ∧ path.text.utf8ByteSize ≤ longestPath

instance (path : Path) : Decidable (Walkable path) := inferInstanceAs (Decidable (_ ∧ _))

theorem walk_of_walkable {path : Path} (h : Walkable path) (t : FileTree) (throughLast : Bool) :
    t.walk throughLast path = t.walkLinks throughLast 40 (t.start path) path.parts := by
  unfold walk
  rw [h.1, if_neg (by simp), if_neg (Nat.not_lt.2 h.2)]
  rfl

theorem walk_of_not_walkable {path : Path} (h : ¬Walkable path) (t : FileTree) :
    ∃ e, e ≠ .missing ∧ ∀ throughLast, t.walk throughLast path = .error e := by
  by_cases hnul : path.text.toList.contains (Char.ofNat 0) = true
  · exact ⟨.notPath, by decide, fun _ => if_pos hnul⟩
  · have hlong : longestPath < path.text.utf8ByteSize :=
      Nat.lt_of_not_le fun hshort => h ⟨Bool.not_eq_true _ ▸ hnul, hshort⟩
    exact ⟨.nameTooLong, by decide, fun _ => (if_neg hnul).trans (if_pos hlong)⟩

theorem walk_eq_ok {path : Path} : t.walk throughLast path = .ok p ↔
    Walkable path ∧ Leads t throughLast 40 (t.start path) path.parts p := by
  constructor
  · intro h
    by_cases hwalkable : Walkable path
    · rw [walk_of_walkable hwalkable, walkLinks_eq_ok] at h
      exact ⟨hwalkable, h⟩
    · obtain ⟨e, -, he⟩ := walk_of_not_walkable hwalkable t
      rw [he] at h
      cases h
  · rintro ⟨hwalkable, h⟩
    rw [walk_of_walkable hwalkable]
    exact h.walkLinks

end FileTree
end Files
end TypedClient
