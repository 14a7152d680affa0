/-
How a path is followed.

`Walks` has a rule for each thing that can happen at a name, and a walk succeeds exactly by these rules (`walk_eq_ok_iff`),
so what is to be said of a walk is proved by an induction with a case for each rule:

- `Walks.transfer`: a tree that has all directories and links of another one leads to the same end;
- `Walks.transfer_or_through`: so does one that has lost a single link, unless the walk went through that link;
- `Walks.split`: a walk goes on from where its first names lead, and so does one over any other names behind them;
- `Walks.front`: the first names of a walk lead to a directory;
- `Walks.siblings`: paths that differ in their last name only end in the same directory;
- `Walks.exists_kept`: a walk that follows a link in the last place also ends somewhere when it keeps that link;
- `Walks.behind_link`: where a walk goes on that stops at a link.
-/
import Mathlib.Tactic
import CilPatch.Files.Lookup
import CilPatch.Proofs.Traversal

namespace CilPatch.Files

/-- the location that a target has -/
def Target.location : Target → Location
  | named dir name _ => dir ++ [name]
  | special dir => dir

/-- a name that an entry can have, without a slash behind it -/
def Target.IsName (x : Target) : Prop := ∃ dir name, name.length ≤ maxName ∧ x = .named dir name false

/-- the name of an entry, and not of the directory itself or of the one above -/
def NamesEntry (name : Text) : Prop := name ≠ dot ∧ name ≠ dotDot

namespace FileTree

variable {t u : FileTree} {last last' : Bool → Bool} {n m : Nat} {dir : Location} {names : List Text} {slashed : Bool}
  {x y : Target}

theorem enter_eq_ok_iff : t.enter dir = .ok () ↔ t.get? dir = some .dir ∧ t.grant .search dir = .ok () := by
  unfold enter
  split_ifs with h
  · exact ⟨nofun, fun hdir => absurd hdir.1 h⟩
  · exact ⟨fun hgrant => ⟨not_not.1 h, hgrant⟩, And.right⟩

/-! ## Rules -/

/-- whether a slash stands behind the end when the target of a link is put in front of more names -/
def slashedBehind (target : Text) (rest : List Text) (slashed : Bool) : Bool :=
  if rest = [] then endsInSlash target || slashed else slashed

theorem slashedBehind_append {rest : List Text} (target : Text) (names : List Text) (slashed : Bool) (hne : rest ≠ []) :
    slashedBehind target (names ++ rest) slashed = slashed :=
  if_neg (List.append_ne_nil_of_right_ne_nil names hne)

/-- how a walk can lead from a directory to a target -/
inductive Walks (t : FileTree) (last : Bool → Bool) : Nat → Location → List Text → Bool → Target → Prop where
  | done {n : Nat} {dir : Location} {slashed : Bool} : Walks t last n dir [] slashed (.special dir)
  | stay {n : Nat} {dir : Location} {name : Text} {rest : List Text} {slashed : Bool} {x : Target}
      (henter : t.enter dir = .ok ()) (hname : name = dot) (hrest : Walks t last n dir rest slashed x) :
      Walks t last n dir (name :: rest) slashed x
  | up {n : Nat} {dir : Location} {name : Text} {rest : List Text} {slashed : Bool} {x : Target}
      (henter : t.enter dir = .ok ()) (hname : name = dotDot) (hrest : Walks t last n dir.dropLast rest slashed x) :
      Walks t last n dir (name :: rest) slashed x
  /-- the last name need not have an entry -/
  | stop {n : Nat} {dir : Location} {name : Text} {slashed : Bool} (henter : t.enter dir = .ok ())
      (hname : NamesEntry name)
      (hlink : ∀ node target, t.get? (dir ++ [name]) = some (.link node target) → last slashed = false) :
      Walks t last n dir [name] slashed (.named dir name slashed)
  | down {n : Nat} {dir : Location} {name : Text} {rest : List Text} {slashed : Bool} {x : Target}
      (henter : t.enter dir = .ok ()) (hname : NamesEntry name) (hlength : name.length ≤ maxName)
      (hdir : t.get? (dir ++ [name]) = some .dir) (hne : rest ≠ [])
      (hrest : Walks t last n (dir ++ [name]) rest slashed x) : Walks t last n dir (name :: rest) slashed x
  | follow {n : Nat} {dir : Location} {name target : Text} {node : NodeId} {rest : List Text} {slashed : Bool} {x : Target}
      (henter : t.enter dir = .ok ()) (hname : NamesEntry name) (hlength : name.length ≤ maxName)
      (hlink : t.get? (dir ++ [name]) = some (.link node target)) (hgrant : t.grant .follow (dir ++ [name]) = .ok ())
      (hon : rest ≠ [] ∨ last slashed = true)
      (hrest : Walks t last n (startOf dir target) (components target ++ rest) (slashedBehind target rest slashed) x) :
      Walks t last (n + 1) dir (name :: rest) slashed x

/-- what a walk does with a link when so many may be followed -/
def nextWalk (t : FileTree) (last : Bool → Bool) : Nat → Location → Route → Except FileError Target
  | 0 => fun _ _ => .error .tooManyLinks
  | n + 1 => t.walk last n

theorem walk_eq_walkWith (n : Nat) (dir : Location) (r : Route) :
    t.walk last n dir r = t.walkWith last (t.nextWalk last n) dir r.names r.slashed := by
  cases n <;> rfl

theorem walks_of_walkWith {next : Location → Route → Except FileError Target}
    (hnext : ∀ dir r x, next dir r = .ok x → ∃ m, n = m + 1 ∧ t.Walks last m dir r.names r.slashed x)
    (h : t.walkWith last next dir names slashed = .ok x) : t.Walks last n dir names slashed x := by
  induction names generalizing dir with
  | nil =>
    cases h
    exact .done
  | cons name rest ih =>
    obtain ⟨⟨⟩, henter, hgo⟩ := bind_eq_ok_iff.1 h
    by_cases hdot : name = dot
    · rw [if_pos hdot] at hgo
      exact .stay henter hdot (ih hgo)
    by_cases hdots : name = dotDot
    · rw [if_neg hdot, if_pos hdots] at hgo
      exact .up henter hdots (ih hgo)
    rw [if_neg hdot, if_neg hdots] at hgo
    have hname : NamesEntry name := ⟨hdot, hdots⟩
    split at hgo
    · rename_i node target hlink
      split_ifs at hgo with hstop hlength
      · obtain ⟨rfl, hlast⟩ := hstop
        cases hgo
        exact .stop henter hname fun _ _ _ => hlast
      · obtain ⟨⟨⟩, hgrant, hfollow⟩ := bind_eq_ok_iff.1 hgo
        obtain ⟨m, rfl, hrest⟩ := hnext _ _ _ hfollow
        refine .follow henter hname (not_lt.1 hlength) hlink hgrant ?_ hrest
        rw [not_and_or] at hstop
        exact hstop.imp id Bool.of_not_eq_false
    · rename_i hlink
      split_ifs at hgo with hrest hlength hthere
      · subst hrest
        cases hgo
        exact .stop henter hname fun node target he => absurd he (hlink node target)
      · -- a name that is followed by others is entered, so it is a directory
        have hdir : t.get? (dir ++ [name]) = some .dir := by
          obtain ⟨second, more, rfl⟩ := List.exists_cons_of_ne_nil hrest
          obtain ⟨⟨⟩, hnext, -⟩ := bind_eq_ok_iff.1 hgo
          exact (enter_eq_ok_iff.1 hnext).1
        exact .down henter hname (not_lt.1 hlength) hdir hrest (ih hgo)

theorem walks_of_walk {r : Route} (h : t.walk last n dir r = .ok x) : t.Walks last n dir r.names r.slashed x := by
  induction n generalizing dir r x with
  | zero => exact walks_of_walkWith (fun _ _ _ hnone => by cases hnone) h
  | succ n ih => exact walks_of_walkWith (fun _ _ _ h => ⟨n, rfl, ih h⟩) h

theorem Walks.walk (h : t.Walks last n dir names slashed x) : t.walk last n dir ⟨names, slashed⟩ = .ok x := by
  induction h with
  | done => rw [walk_eq_walkWith, walkWith]
  | stay henter hname _ ih =>
    rw [walk_eq_walkWith] at ih ⊢
    rw [walkWith, henter]
    exact (if_pos hname).trans ih
  | up henter hname _ ih =>
    subst hname
    rw [walk_eq_walkWith] at ih ⊢
    rw [walkWith, henter]
    exact ih
  | @stop n dir name slashed henter hname hlink =>
    rw [walk_eq_walkWith, walkWith, henter]
    refine (if_neg hname.1).trans ((if_neg hname.2).trans ?_)
    split
    · rename_i hentry
      exact if_pos ⟨rfl, hlink _ _ hentry⟩
    · exact if_pos rfl
  | down henter hname hlength hdir hne _ ih =>
    rw [walk_eq_walkWith] at ih ⊢
    rw [walkWith, henter]
    refine (if_neg hname.1).trans ((if_neg hname.2).trans ?_)
    rw [hdir]
    exact (if_neg hne).trans ((if_neg (not_lt.2 hlength)).trans ((if_neg nofun).trans ih))
  | @follow n dir name target node rest slashed x henter hname hlength hlink hgrant hon _ ih =>
    rw [walk_eq_walkWith, walkWith, henter]
    refine (if_neg hname.1).trans ((if_neg hname.2).trans ?_)
    have hstop : ¬ (rest = [] ∧ last slashed = false) := by
      rintro ⟨hrest, hlast⟩
      exact hon.elim (fun hne => hne hrest) fun htrue => by simp [htrue] at hlast
    rw [hlink]
    refine (if_neg hstop).trans ((if_neg (not_lt.2 hlength)).trans ?_)
    rw [hgrant]
    exact ih

theorem walk_eq_ok_iff {r : Route} : t.walk last n dir r = .ok x ↔ t.Walks last n dir r.names r.slashed x :=
  ⟨walks_of_walk, Walks.walk⟩

namespace Walks

/-- more links than needed may be followed -/
theorem mono (h : t.Walks last n dir names slashed x) (hle : n ≤ m) : t.Walks last m dir names slashed x := by
  induction h generalizing m with
  | done => exact .done
  | stay henter hname _ ih => exact .stay henter hname (ih hle)
  | up henter hname _ ih => exact .up henter hname (ih hle)
  | stop henter hname hlink => exact .stop henter hname hlink
  | down henter hname hlength hdir hne _ ih => exact .down henter hname hlength hdir hne (ih hle)
  | follow henter hname hlength hlink hgrant hon _ ih =>
    obtain ⟨k, rfl⟩ := Nat.exists_eq_add_of_le' (Nat.le_of_add_left_le hle)
    exact .follow henter hname hlength hlink hgrant hon (ih (Nat.le_of_succ_le_succ hle))

/-- a walk has one end -/
theorem unique (h : t.Walks last n dir names slashed x) (h' : t.Walks last m dir names slashed y) : x = y := by
  have hx := (h.mono (le_max_left n m)).walk
  rw [(h'.mono (le_max_right n m)).walk] at hx
  exact (Except.ok.inj hx).symm

/-- a link at the end was not to be followed -/
theorem last_of_link {name : Text} {node : NodeId} {target : Text} {above : Location} {slashed' : Bool}
    (h : t.Walks last n dir names slashed (.named above name slashed'))
    (hlink : t.get? (above ++ [name]) = some (.link node target)) : last slashed' = false := by
  generalize hx : Target.named above name slashed' = x at h
  induction h with
  | done => cases hx
  | stop _ _ hstop =>
    cases hx
    exact hstop _ _ hlink
  | stay _ _ _ ih => exact ih hx
  | up _ _ _ ih => exact ih hx
  | down _ _ _ _ _ _ ih => exact ih hx
  | follow _ _ _ _ _ _ _ ih => exact ih hx

/-! ## Inversion -/

section

variable {name target : Text} {node : NodeId} {rest : List Text}

theorem of_dot (h : t.Walks last n dir (name :: rest) slashed x) (hname : name = dot) :
    t.Walks last n dir rest slashed x := by
  cases h with
  | stay _ _ hrest => exact hrest
  | up _ hup => exact absurd (hname.symm.trans hup) (by decide)
  | stop _ hentry => exact absurd hname hentry.1
  | down _ hentry => exact absurd hname hentry.1
  | follow _ hentry => exact absurd hname hentry.1

theorem of_dotDot (h : t.Walks last n dir (name :: rest) slashed x) (hname : name = dotDot) :
    t.Walks last n dir.dropLast rest slashed x := by
  cases h with
  | stay _ hstay => exact absurd (hstay.symm.trans hname) (by decide)
  | up _ _ hrest => exact hrest
  | stop _ hentry => exact absurd hname hentry.2
  | down _ hentry => exact absurd hname hentry.2
  | follow _ hentry => exact absurd hname hentry.2

theorem of_dir (h : t.Walks last n dir (name :: rest) slashed x) (hname : NamesEntry name)
    (hdir : t.get? (dir ++ [name]) = some .dir) (hne : rest ≠ []) : t.Walks last n (dir ++ [name]) rest slashed x := by
  cases h with
  | stay _ hstay => exact absurd hstay hname.1
  | up _ hup => exact absurd hup hname.2
  | stop => exact absurd rfl hne
  | down _ _ _ _ _ hrest => exact hrest
  | follow _ _ _ hlink =>
    rw [hdir] at hlink
    cases hlink

theorem of_link (h : t.Walks last n dir (name :: rest) slashed x) (hname : NamesEntry name)
    (hlink : t.get? (dir ++ [name]) = some (.link node target)) (hon : rest ≠ [] ∨ last slashed = true) :
    ∃ k, n = k + 1 ∧
      t.Walks last k (startOf dir target) (components target ++ rest) (slashedBehind target rest slashed) x := by
  cases h with
  | stay _ hstay => exact absurd hstay hname.1
  | up _ hup => exact absurd hup hname.2
  | stop _ _ hstop =>
    refine absurd (hstop _ _ hlink) ?_
    simpa using hon
  | down _ _ _ hdir =>
    rw [hdir] at hlink
    cases hlink
  | @follow k _ _ _ _ _ _ _ _ _ _ hlink' _ _ hrest =>
    rw [hlink] at hlink'
    cases hlink'
    exact ⟨k, rfl, hrest⟩

end

end Walks

/-! ## Parts of a walk -/

/-- the names lead from one directory to another, in which any other names can be followed then -/
structure LeadsTo (t : FileTree) (n : Nat) (dir : Location) (names : List Text) (m : Nat) (mid : Location) : Prop where
  front : ∀ slashed, ∃ y, t.Walks followed n dir names slashed y ∧ y.location = mid
  onward : ∀ (last : Bool → Bool) (rest : List Text) (slashed : Bool) (x : Target), rest ≠ [] →
    t.Walks last m mid rest slashed x → t.Walks last n dir (names ++ rest) slashed x

namespace LeadsTo

variable {mid : Location} {name target : Text} {node : NodeId}

theorem nil (t : FileTree) (n : Nat) (dir : Location) : t.LeadsTo n dir [] n dir :=
  ⟨fun _ => ⟨.special dir, .done, rfl⟩, fun _ _ _ _ _ => id⟩

theorem stay (henter : t.enter dir = .ok ()) (hname : name = dot) (h : t.LeadsTo n dir names m mid) :
    t.LeadsTo n dir (name :: names) m mid where
  front slashed := by
    obtain ⟨y, hy, hmid⟩ := h.front slashed
    exact ⟨y, .stay henter hname hy, hmid⟩
  onward last rest slashed x hne hx := .stay henter hname (h.onward last rest slashed x hne hx)

theorem up (henter : t.enter dir = .ok ()) (hname : name = dotDot) (h : t.LeadsTo n dir.dropLast names m mid) :
    t.LeadsTo n dir (name :: names) m mid where
  front slashed := by
    obtain ⟨y, hy, hmid⟩ := h.front slashed
    exact ⟨y, .up henter hname hy, hmid⟩
  onward last rest slashed x hne hx := .up henter hname (h.onward last rest slashed x hne hx)

theorem down (henter : t.enter dir = .ok ()) (hname : NamesEntry name) (hlength : name.length ≤ maxName)
    (hdir : t.get? (dir ++ [name]) = some .dir) (h : t.LeadsTo n (dir ++ [name]) names m mid) :
    t.LeadsTo n dir (name :: names) m mid where
  front slashed := by
    obtain ⟨y, hy, hmid⟩ := h.front slashed
    by_cases hne : names = []
    · subst hne
      cases hy
      refine ⟨.named dir name slashed, .stop henter hname fun node target hlink => ?_, hmid⟩
      rw [hdir] at hlink
      cases hlink
    · exact ⟨y, .down henter hname hlength hdir hne hy, hmid⟩
  onward last rest slashed x hne hx := .down henter hname hlength hdir (List.append_ne_nil_of_right_ne_nil names hne)
    (h.onward last rest slashed x hne hx)

theorem follow (henter : t.enter dir = .ok ()) (hname : NamesEntry name) (hlength : name.length ≤ maxName)
    (hlink : t.get? (dir ++ [name]) = some (.link node target)) (hgrant : t.grant .follow (dir ++ [name]) = .ok ())
    (h : t.LeadsTo n (startOf dir target) (components target ++ names) m mid) :
    t.LeadsTo (n + 1) dir (name :: names) m mid where
  front slashed := by
    obtain ⟨y, hy, hmid⟩ := h.front (slashedBehind target names slashed)
    exact ⟨y, .follow henter hname hlength hlink hgrant (.inr rfl) hy, hmid⟩
  onward last rest slashed x hne hx := by
    have hgoes := h.onward last rest slashed x hne hx
    rw [List.append_assoc, ← slashedBehind_append target names slashed hne] at hgoes
    exact .follow henter hname hlength hlink hgrant (.inl (List.append_ne_nil_of_right_ne_nil names hne)) hgoes

end LeadsTo

namespace Walks

/-- a walk goes on from where the names in front lead -/
theorem split {rest : List Text} (h : t.Walks last n dir (names ++ rest) slashed x) (hne : rest ≠ []) :
    ∃ m mid, t.LeadsTo n dir names m mid ∧ t.Walks last m mid rest slashed x := by
  generalize hall : names ++ rest = all at h
  have hhere {n : Nat} {dir : Location} {all : List Text} {slashed : Bool} {x : Target} (hall : [] ++ rest = all)
      (h : t.Walks last n dir all slashed x) :
      ∃ m mid, t.LeadsTo n dir [] m mid ∧ t.Walks last m mid rest slashed x := by
    subst hall
    exact ⟨n, dir, .nil t n dir, h⟩
  induction h generalizing names with
  | done => exact absurd (List.append_eq_nil_iff.1 hall).2 hne
  | stay henter hname hrest ih =>
    rcases names with - | ⟨a, names⟩
    · exact hhere hall (.stay henter hname hrest)
    · obtain ⟨rfl, htail⟩ := List.cons_eq_cons.1 hall
      obtain ⟨m, mid, hleads, hbehind⟩ := ih htail
      exact ⟨m, mid, hleads.stay henter hname, hbehind⟩
  | up henter hname hrest ih =>
    rcases names with - | ⟨a, names⟩
    · exact hhere hall (.up henter hname hrest)
    · obtain ⟨rfl, htail⟩ := List.cons_eq_cons.1 hall
      obtain ⟨m, mid, hleads, hbehind⟩ := ih htail
      exact ⟨m, mid, hleads.up henter hname, hbehind⟩
  | stop henter hname hlink =>
    rcases names with - | ⟨a, names⟩
    · exact hhere hall (.stop henter hname hlink)
    · exact absurd (List.append_eq_nil_iff.1 (List.cons_eq_cons.1 hall).2).2 hne
  | down henter hname hlength hdir hrestne hrest ih =>
    rcases names with - | ⟨a, names⟩
    · exact hhere hall (.down henter hname hlength hdir hrestne hrest)
    · obtain ⟨rfl, htail⟩ := List.cons_eq_cons.1 hall
      obtain ⟨m, mid, hleads, hbehind⟩ := ih htail
      exact ⟨m, mid, hleads.down henter hname hlength hdir, hbehind⟩
  | @follow n dir name target node tail slashed x henter hname hlength hlink hgrant hon hrest ih =>
    rcases names with - | ⟨a, names⟩
    · exact hhere hall (.follow henter hname hlength hlink hgrant hon hrest)
    · obtain ⟨rfl, htail⟩ : a = name ∧ names ++ rest = tail := List.cons_eq_cons.1 hall
      subst htail
      obtain ⟨m, mid, hleads, hbehind⟩ := ih (List.append_assoc (components target) names rest)
      rw [slashedBehind_append target names slashed hne] at hbehind
      exact ⟨m, mid, hleads.follow henter hname hlength hlink hgrant, hbehind⟩

/-- a walk over one name or more stands in a directory -/
theorem enter (h : t.Walks last n dir names slashed x) (hne : names ≠ []) : t.enter dir = .ok () := by
  cases h with
  | done => exact absurd rfl hne
  | stay henter | up henter | stop henter | down henter | follow henter => exact henter

/-- a slash behind the names changes nothing about where they lead -/
theorem exists_slashed (h : t.Walks followed n dir names slashed x) (slashed' : Bool) :
    ∃ y, t.Walks followed n dir names slashed' y ∧ y.location = x.location := by
  induction h generalizing slashed' with
  | @done n dir => exact ⟨.special dir, .done, rfl⟩
  | stay henter hname _ ih =>
    obtain ⟨y, hy, hend⟩ := ih slashed'
    exact ⟨y, .stay henter hname hy, hend⟩
  | up henter hname _ ih =>
    obtain ⟨y, hy, hend⟩ := ih slashed'
    exact ⟨y, .up henter hname hy, hend⟩
  | @stop n dir name _ henter hname hlink => exact ⟨.named dir name slashed', .stop henter hname hlink, rfl⟩
  | down henter hname hlength hdir hne _ ih =>
    obtain ⟨y, hy, hend⟩ := ih slashed'
    exact ⟨y, .down henter hname hlength hdir hne hy, hend⟩
  | @follow n dir name target node rest _ _ henter hname hlength hlink hgrant hon _ ih =>
    obtain ⟨y, hy, hend⟩ := ih (slashedBehind target rest slashed')
    exact ⟨y, .follow henter hname hlength hlink hgrant (.inr rfl) hy, hend⟩

/-- the names in front lead to a directory, unless they are all names, and then they lead to the same end -/
theorem front {rest : List Text} (h : t.Walks followed n dir (names ++ rest) slashed x) (slashed' : Bool) :
    ∃ y, t.Walks followed n dir names slashed' y ∧ (y.location = x.location ∨ t.get? y.location = some .dir) := by
  by_cases hne : rest = []
  · rw [hne, List.append_nil] at h
    obtain ⟨y, hy, hend⟩ := h.exists_slashed slashed'
    exact ⟨y, hy, .inl hend⟩
  · obtain ⟨m, mid, hleads, hbehind⟩ := h.split hne
    obtain ⟨y, hy, rfl⟩ := hleads.front slashed'
    exact ⟨y, hy, .inr (enter_eq_ok_iff.1 (hbehind.enter hne)).1⟩

/-- walks that keep their last link and differ in their last name only end in the same directory -/
theorem siblings {name found : Text} {above : Location} {slashed' : Bool}
    (h : t.Walks kept n dir (names ++ [name]) slashed (.named above found slashed')) :
    found = name ∧ NamesEntry name ∧ ∀ other, NamesEntry other →
      t.Walks kept n dir (names ++ [other]) slashed (.named above other slashed') := by
  obtain ⟨m, mid, hleads, hbehind⟩ := h.split (List.cons_ne_nil name [])
  cases hbehind with
  | stay _ _ hrest => cases hrest
  | up _ _ hrest => cases hrest
  | stop henter hname =>
    exact ⟨rfl, hname, fun other hother => hleads.onward kept [other] slashed _ (List.cons_ne_nil other [])
      (.stop henter hother fun _ _ _ => rfl)⟩
  | down _ _ _ _ hne => exact absurd rfl hne
  | follow _ _ _ _ _ hon => simp [kept] at hon

/-- a walk also ends somewhere when it keeps its last link, and if it has led to a name, then at a name -/
theorem exists_kept (h : t.Walks followed n dir names slashed x) :
    ∃ y, t.Walks kept n dir names slashed y ∧ (x.IsName → y.IsName) := by
  suffices h' : ∃ y, t.Walks kept n dir names slashed y ∧
      (x.IsName → slashed = false ∧ ∃ above name, name.length ≤ maxName ∧ y = .named above name slashed) by
    obtain ⟨y, hkept, hname⟩ := h'
    refine ⟨y, hkept, fun hx => ?_⟩
    obtain ⟨rfl, hy⟩ := hname hx
    exact hy
  induction h with
  | @done n dir => exact ⟨.special dir, .done, fun ⟨_, _, _, h⟩ => nomatch h⟩
  | stay henter hname _ ih =>
    obtain ⟨y, hkept, hy⟩ := ih
    exact ⟨y, .stay henter hname hkept, hy⟩
  | up henter hname _ ih =>
    obtain ⟨y, hkept, hy⟩ := ih
    exact ⟨y, .up henter hname hkept, hy⟩
  | @stop n dir name slashed henter hname =>
    refine ⟨.named dir name slashed, .stop henter hname fun _ _ _ => rfl, fun ⟨_, _, hlength, hx⟩ => ?_⟩
    cases hx
    exact ⟨rfl, dir, name, hlength, rfl⟩
  | down henter hname hlength hdir hne _ ih =>
    obtain ⟨y, hkept, hy⟩ := ih
    exact ⟨y, .down henter hname hlength hdir hne hkept, hy⟩
  | @follow n dir name target node rest slashed x henter hname hlength hlink hgrant hon _ ih =>
    obtain ⟨y, hkept, hy⟩ := ih
    by_cases hrest : rest = []
    · subst hrest
      refine ⟨.named dir name slashed, .stop henter hname fun _ _ _ => rfl, fun hx => ?_⟩
      exact ⟨(Bool.or_eq_false_iff.1 (hy hx).1).2, dir, name, hlength, rfl⟩
    · have hsame : slashedBehind target rest slashed = slashed := if_neg hrest
      rw [hsame] at hy
      exact ⟨y, .follow henter hname hlength hlink hgrant (.inl hrest) hkept, hy⟩

/-- where a walk that keeps its last link stops at one, a walk that follows it goes on from there -/
theorem behind_link {name target : Text} {node : NodeId} {above : Location} {slashed' : Bool}
    (h : t.Walks kept n dir names slashed (.named above name slashed'))
    (hlink : t.get? (above ++ [name]) = some (.link node target)) (h' : t.Walks last m dir names slashed x)
    (hlast : last slashed' = true) :
    ∃ k, t.Walks last k (startOf above target) (components target) (endsInSlash target || slashed') x := by
  generalize hx : Target.named above name slashed' = y at h
  induction h generalizing m with
  | done => cases hx
  | stay _ hname _ ih => exact ih (h'.of_dot hname) hx
  | up _ hname _ ih => exact ih (h'.of_dotDot hname) hx
  | stop _ hname =>
    cases hx
    obtain ⟨k, -, hrest⟩ := h'.of_link hname hlink (.inr hlast)
    rw [List.append_nil] at hrest
    exact ⟨k, hrest⟩
  | down _ hname _ hdir hne _ ih => exact ih (h'.of_dir hname hdir hne) hx
  | follow _ hname _ hlink' _ hon _ ih =>
    obtain ⟨k, -, hrest⟩ := h'.of_link hname hlink' (.inl (hon.resolve_right Bool.false_ne_true))
    exact ih hrest hx

end Walks

/-! ## Walks in another tree -/

/-- the second tree has all directories of the first one, and all of its links but those lost -/
structure KeepsWays (t u : FileTree) (lost : Location → Prop) : Prop where
  rules : u.rules = t.rules
  dirs : ∀ loc, t.get? loc = some .dir → u.get? loc = some .dir
  links : ∀ loc node target, ¬ lost loc → t.get? loc = some (.link node target) →
    u.get? loc = some (.link node target)

namespace KeepsWays

variable {lost : Location → Prop}

theorem grant (hk : t.KeepsWays u lost) (access : Access) (loc : Location) : u.grant access loc = t.grant access loc := by
  rw [FileTree.grant, hk.rules, FileTree.grant]

theorem enter (hk : t.KeepsWays u lost) (h : t.enter dir = .ok ()) : u.enter dir = .ok () := by
  obtain ⟨hdir, hgrant⟩ := enter_eq_ok_iff.1 h
  exact enter_eq_ok_iff.2 ⟨hk.dirs dir hdir, (hk.grant _ _).trans hgrant⟩

end KeepsWays

/-- a walk to the target goes on behind one of these links -/
def Through (t : FileTree) (last : Bool → Bool) (lost : Location → Prop) (x : Target) : Prop :=
  ∃ above name node target n rest slashed, lost (above ++ [name]) ∧
    t.get? (above ++ [name]) = some (.link node target) ∧ (rest ≠ [] ∨ last slashed = true) ∧
    t.Walks last n (startOf above target) (components target ++ rest) (slashedBehind target rest slashed) x

/-- a link in this place may be the end -/
def EndsAt (u : FileTree) (last : Bool → Bool) : Target → Prop
  | .named dir name slashed => ∀ node target, u.get? (dir ++ [name]) = some (.link node target) → last slashed = false
  | .special _ => True

/-- a walk leads to the same end, unless it goes through a link that is lost -/
theorem Walks.transfer_or_through {lost : Location → Prop} (hk : t.KeepsWays u lost)
    (hlast : ∀ slashed, last slashed = true → last' slashed = true) (h : t.Walks last n dir names slashed x)
    (hend : u.EndsAt last' x) : u.Walks last' n dir names slashed x ∨ t.Through last lost x := by
  induction h with
  | done => exact .inl .done
  | stay henter hname _ ih => exact (ih hend).imp_left (.stay (hk.enter henter) hname)
  | up henter hname _ ih => exact (ih hend).imp_left (.up (hk.enter henter) hname)
  | stop henter hname => exact .inl (.stop (hk.enter henter) hname hend)
  | down henter hname hlength hdir hne _ ih =>
    exact (ih hend).imp_left (.down (hk.enter henter) hname hlength (hk.dirs _ hdir) hne)
  | @follow n dir name target node rest slashed x henter hname hlength hlink hgrant hon hrest ih =>
    by_cases hlost : lost (dir ++ [name])
    · exact .inr ⟨dir, name, node, target, n, rest, slashed, hlost, hlink, hon, hrest⟩
    · refine (ih hend).imp_left fun hrest => ?_
      exact .follow (hk.enter henter) hname hlength (hk.links _ _ _ hlost hlink) ((hk.grant _ _).trans hgrant)
        (hon.imp_right (hlast slashed)) hrest

/-- a walk leads to the same end when no link is lost -/
theorem Walks.transfer (hk : t.KeepsWays u fun _ => False)
    (hlast : ∀ slashed, last slashed = true → last' slashed = true) (h : t.Walks last n dir names slashed x)
    (hend : u.EndsAt last' x) : u.Walks last' n dir names slashed x := by
  refine (h.transfer_or_through hk hlast hend).resolve_right ?_
  rintro ⟨above, name, -, -, -, -, -, hlost, -⟩
  exact hlost

end FileTree

end CilPatch.Files
