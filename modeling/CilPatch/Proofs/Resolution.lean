/-
Where a path leads, and how far that depends on the tree.

A path can stand for two things: for the name that it ends with (`Names`), which is what renaming and removing go by, and
for what it leads to when a link with that name is followed (`OpensAt`, `resolve`), which is what reading and writing go
by. Both are the same unless the name is that of a link.

- `exists_components`: the names of a path up to its last one, and what stands behind that does not change the others;
- `resolve_of_keepsWays`, `Names.of_keepsWays`: a tree that keeps directories and links keeps both meanings;
- `resolve_of_lost`: a name can be lost, and no more than what it stands for is lost with it.
-/
import Mathlib.Data.List.TakeWhile
import CilPatch.Files.Directories
import CilPatch.Proofs.Walks

namespace CilPatch.Files

/-! ## Names in a path -/

theorem splitNames_append_slash (before after acc : Text) :
    splitNames (before ++ slash :: after) acc = splitNames before acc ++ splitNames after [] := by
  induction before generalizing acc with
  | nil =>
    simp only [List.nil_append, splitNames]
    split_ifs <;> simp
  | cons c before ih =>
    simp only [List.cons_append, splitNames]
    split_ifs <;> simp [ih]

theorem splitNames_of_slash_notMem {name acc : Text} (h : slash ∉ name) (hne : acc.reverse ++ name ≠ []) :
    splitNames name acc = [acc.reverse ++ name] := by
  induction name generalizing acc with
  | nil =>
    rw [splitNames, if_neg (by simpa using hne), List.append_nil]
  | cons c name ih =>
    obtain ⟨hc, hname⟩ := not_or.1 (mt List.mem_cons.2 h)
    rw [splitNames, if_neg (Ne.symm hc), ih hname (by simp)]
    simp

theorem slash_notMem_fileName (path : Text) : slash ∉ fileName path := by
  intro h
  have hmem : slash ∈ path.reverse.takeWhile (· ≠ slash) := List.mem_reverse.1 h
  simpa using List.mem_takeWhile_imp hmem

/-- what is left after dropping starts with the first element that stays -/
theorem head_of_dropWhile {p : UInt8 → Bool} {l cs : Text} {c : UInt8} (h : l.dropWhile p = c :: cs) :
    p c = false := by
  have hhead := List.head?_dropWhile_not p l
  rw [h] at hhead
  simpa using hhead

/-- a path is its last name alone, or has a slash in front of it -/
theorem eq_fileName_or_append (path : Text) :
    path = fileName path ∨ ∃ before, path = before ++ slash :: fileName path := by
  have hsplit : (path.reverse.dropWhile (· ≠ slash)).reverse ++ fileName path = path := by
    rw [fileName, ← List.reverse_append, List.takeWhile_append_dropWhile, List.reverse_reverse]
  cases hrest : path.reverse.dropWhile (· ≠ slash) with
  | nil => exact .inl (by rw [hrest] at hsplit; exact hsplit.symm)
  | cons c rest =>
    have hc : c = slash := by simpa using head_of_dropWhile hrest
    refine .inr ⟨rest.reverse, ?_⟩
    rw [hrest, hc] at hsplit
    simpa using hsplit.symm

/-- the names of a path up to its last one, which may be extended without changing the others -/
theorem exists_components (path : Text) (h : fileName path ≠ []) :
    ∃ names, ∀ suffix, slash ∉ suffix → components (path ++ suffix) = names ++ [fileName path ++ suffix] := by
  have hlast (suffix : Text) (hs : slash ∉ suffix) : splitNames (fileName path ++ suffix) [] = [fileName path ++ suffix] :=
    splitNames_of_slash_notMem (by simp [slash_notMem_fileName, hs]) (by simp [h])
  rcases eq_fileName_or_append path with hpath | ⟨before, hpath⟩
  · refine ⟨[], fun suffix hs => ?_⟩
    have : components (path ++ suffix) = splitNames (fileName path ++ suffix) [] := by rw [components, ← hpath]
    rw [this, hlast suffix hs, List.nil_append]
  · refine ⟨components before, fun suffix hs => ?_⟩
    have : path ++ suffix = before ++ slash :: (fileName path ++ suffix) := by
      conv_lhs => rw [hpath]
      simp
    rw [this, components, splitNames_append_slash, hlast suffix hs, components]

theorem untilNul_of_notMem {text : Text} (h : 0 ∉ text) : Text.untilNul text = text := by
  simpa using Text.untilNul_append_replicate h 0

namespace FileTree

variable {t u : FileTree} {last last' : Bool → Bool} {path other : Text} {loc place : Location} {x : Target}

/-! ## Paths -/

theorem checkPath_eq_ok_iff {p : Text} :
    checkPath path = .ok p ↔ p = Text.untilNul path ∧ p ≠ [] ∧ p.length < maxPath := by
  unfold checkPath
  simp only
  refine ⟨fun h => ?_, fun h => ?_⟩
  · split_ifs at h with h1 h2
    cases h
    exact ⟨rfl, h1, not_le.1 h2⟩
  · obtain ⟨rfl, h1, h2⟩ := h
    rw [if_neg h1, if_neg (not_le.2 h2)]

theorem lookup_eq_ok_iff : t.lookup last path = .ok x ↔ ∃ p, checkPath path = .ok p ∧
    t.Walks last maxLinks [] (components p) (endsInSlash p) x := by
  rw [lookup, bind_eq_ok_iff]
  exact exists_congr fun p => and_congr_right fun _ => walk_eq_ok_iff

/-- there is an entry at the end, a directory if a slash stands behind it -/
def EntryAt (t : FileTree) : Target → Prop
  | .named dir name slashed => name.length ≤ maxName ∧ t.get? (dir ++ [name]) ≠ none ∧
      (slashed = true → t.get? (dir ++ [name]) = some .dir)
  | .special _ => True

theorem resolve_eq_ok_iff :
    t.resolve path = .ok loc ↔ ∃ x, t.lookup followed path = .ok x ∧ t.EntryAt x ∧ x.location = loc := by
  rw [resolve, bind_eq_ok_iff]
  refine exists_congr fun x => and_congr_right fun _ => ?_
  cases x with
  | special dir => exact ⟨fun h => ⟨trivial, Except.ok.inj h⟩, fun h => congrArg _ h.2⟩
  | named dir name slashed =>
    refine ⟨fun h => ?_, fun h => ?_⟩
    · dsimp only at h
      split_ifs at h with h1 h2 h3
      refine ⟨⟨not_lt.1 h1, h2, fun hslashed => ?_⟩, Except.ok.inj h⟩
      by_contra hdir
      simp [hslashed, hdir] at h3
    · obtain ⟨⟨h1, h2, h3⟩, rfl⟩ := h
      dsimp only
      rw [if_neg (not_lt.2 h1), if_neg h2, if_neg]
      · rfl
      · cases slashed with
        | false => simp
        | true => simp [h3 rfl]

theorem stat_eq_ok_iff {e : Entry} : t.stat path = .ok e ↔ ∃ loc, t.resolve path = .ok loc ∧ t.get? loc = some e := by
  simp only [stat, bind_eq_ok_iff]
  refine exists_congr fun loc => and_congr_right fun _ => ?_
  cases t.get? loc <;> simp

/-! ## Names and places -/

/-- the path ends in the name of the location, which need not have an entry -/
def EndsIn (t : FileTree) (last : Bool → Bool) (path : Text) (loc : Location) : Prop :=
  ∃ x, t.lookup last path = .ok x ∧ x.IsName ∧ x.location = loc

/-- this is the name that the path ends with -/
def Names (t : FileTree) (path : Text) (loc : Location) : Prop := t.EndsIn kept path loc

/-- a file that is opened by the path stands at the location, or is created there -/
def OpensAt (t : FileTree) (path : Text) (loc : Location) : Prop := t.EndsIn followedToFile path loc

/-- a link has this name -/
def IsLink (t : FileTree) (loc : Location) : Prop := ∃ node target, t.get? loc = some (.link node target)

theorem EndsIn.unique (h : t.EndsIn last path loc) (h' : t.EndsIn last path place) : loc = place := by
  obtain ⟨x, hx, -, rfl⟩ := h
  obtain ⟨y, hy, -, rfl⟩ := h'
  rw [hx] at hy
  rw [Except.ok.inj hy]

theorem concat_ne_nil {dir : Location} {name : Text} : dir ++ [name] ≠ [] := by simp

theorem EndsIn.ne_nil (h : t.EndsIn last path loc) : loc ≠ [] := by
  obtain ⟨_, -, ⟨dir, name, -, rfl⟩, rfl⟩ := h
  exact concat_ne_nil

theorem not_isLink_of_get? {e : Entry} (he : t.get? loc = some e) (hlink : ∀ node target, e ≠ .link node target) :
    ¬ t.IsLink loc := by
  rintro ⟨node, target, h⟩
  exact hlink node target (Option.some.inj (he.symm.trans h))

theorem not_isLink_of_none (h : t.get? loc = none) : ¬ t.IsLink loc := by
  rintro ⟨node, target, hlink⟩
  rw [h] at hlink
  cases hlink

/-! ## The same path in another tree -/

theorem KeepsWays.refl (t : FileTree) (lost : Location → Prop) : t.KeepsWays t lost :=
  ⟨rfl, fun _ h => h, fun _ _ _ _ h => h⟩

theorem lookup_transfer (hk : t.KeepsWays u fun _ => False)
    (hlast : ∀ slashed, last slashed = true → last' slashed = true) (h : t.lookup last path = .ok x)
    (hend : u.EndsAt last' x) : u.lookup last' path = .ok x := by
  obtain ⟨p, hp, hwalk⟩ := lookup_eq_ok_iff.1 h
  exact lookup_eq_ok_iff.2 ⟨p, hp, hwalk.transfer hk hlast hend⟩

/-- a walk may end where it ended before, if no link is new there -/
theorem endsAt_of_lookup (h : t.lookup last path = .ok x) (hsame : u.IsLink x.location → t.IsLink x.location) :
    u.EndsAt last x := by
  cases x with
  | special dir => trivial
  | named dir name slashed =>
    intro node target hlink
    obtain ⟨p, -, hwalk⟩ := lookup_eq_ok_iff.1 h
    obtain ⟨node', target', hlink'⟩ := hsame ⟨node, target, hlink⟩
    exact hwalk.last_of_link hlink'

theorem IsLink.congr (h : u.get? loc = t.get? loc) (hlink : u.IsLink loc) : t.IsLink loc := by
  rwa [IsLink, h] at hlink

theorem EntryAt.congr (h : u.get? x.location = t.get? x.location) (hentry : t.EntryAt x) :
    u.EntryAt x := by
  cases x with
  | special dir => trivial
  | named dir name slashed =>
    change u.get? (dir ++ [name]) = t.get? (dir ++ [name]) at h
    rw [EntryAt, h]
    exact hentry

/-- what a path leads to stays within its reach as long as directories and links are kept -/
theorem resolve_of_keepsWays (hk : t.KeepsWays u fun _ => False) (h : t.resolve path = .ok loc)
    (hsame : u.get? loc = t.get? loc) : u.resolve path = .ok loc := by
  obtain ⟨x, hx, hentry, rfl⟩ := resolve_eq_ok_iff.1 h
  have hlookup := lookup_transfer hk (fun _ => id) hx (endsAt_of_lookup hx (IsLink.congr hsame))
  exact resolve_eq_ok_iff.2 ⟨x, hlookup, hentry.congr hsame, rfl⟩

theorem stat_of_keepsWays {e : Entry} (hk : t.KeepsWays u fun _ => False) (h : t.stat path = .ok e)
    (hsame : ∀ loc, t.get? loc = some e → u.get? loc = some e) : u.stat path = .ok e := by
  obtain ⟨loc, hloc, he⟩ := stat_eq_ok_iff.1 h
  have hu := hsame loc he
  exact stat_eq_ok_iff.2 ⟨loc, resolve_of_keepsWays hk hloc (hu.trans he.symm), hu⟩

/-- any link may be the end of a walk that keeps it -/
theorem endsAt_kept (t : FileTree) (x : Target) : t.EndsAt kept x := by
  cases x with
  | special dir => trivial
  | named dir name slashed => exact fun _ _ _ => rfl

theorem Names.of_keepsWays (hk : t.KeepsWays u fun _ => False) (h : t.Names path loc) : u.Names path loc := by
  obtain ⟨x, hlookup, hx⟩ := h
  exact ⟨x, lookup_transfer hk (fun _ => id) hlookup (endsAt_kept u x), hx⟩

/-! ## Names of links -/

/-- a name that is not that of a link stands for itself -/
theorem Names.endsIn (h : t.Names path loc) (hlink : ¬ t.IsLink loc) : t.EndsIn last path loc := by
  obtain ⟨x, hlookup, hx, rfl⟩ := h
  refine ⟨x, lookup_transfer (KeepsWays.refl t _) (fun _ hkept => absurd hkept Bool.false_ne_true) hlookup ?_, hx, rfl⟩
  cases x with
  | special dir => trivial
  | named dir name slashed => exact fun node target he => absurd ⟨node, target, he⟩ hlink

theorem Names.eq_of_opensAt (h : t.Names path loc) (hlink : ¬ t.IsLink loc) (hopens : t.OpensAt path place) :
    place = loc := hopens.unique (h.endsIn hlink)

theorem Names.eq_of_resolve (h : t.Names path loc) (hlink : ¬ t.IsLink loc) (hresolve : t.resolve path = .ok place) :
    place = loc := by
  obtain ⟨x, hx, -, rfl⟩ := resolve_eq_ok_iff.1 hresolve
  have hends : t.EndsIn followed path loc := h.endsIn hlink
  obtain ⟨y, hy, -, rfl⟩ := hends
  rw [hx] at hy
  rw [Except.ok.inj hy]

/-- an open file is what its path leads to -/
theorem OpensAt.followed (h : t.OpensAt path loc) : t.EndsIn followed path loc := by
  obtain ⟨_, hlookup, ⟨dir, name, hlength, rfl⟩, rfl⟩ := h
  obtain ⟨p, -, hwalk⟩ := lookup_eq_ok_iff.1 hlookup
  have hend : t.EndsAt FileTree.followed (.named dir name false) := fun node target hlink =>
    absurd (hwalk.last_of_link hlink) (by decide)
  exact ⟨_, lookup_transfer (KeepsWays.refl t _) (fun _ _ => rfl) hlookup hend, ⟨dir, name, hlength, rfl⟩, rfl⟩

theorem EndsIn.resolve (h : t.EndsIn FileTree.followed path loc) (hthere : t.get? loc ≠ none) :
    t.resolve path = .ok loc := by
  obtain ⟨_, hlookup, ⟨dir, name, hlength, rfl⟩, rfl⟩ := h
  exact resolve_eq_ok_iff.2 ⟨_, hlookup, ⟨hlength, hthere, nofun⟩, rfl⟩

theorem OpensAt.resolve (h : t.OpensAt path loc) (hthere : t.get? loc ≠ none) : t.resolve path = .ok loc :=
  h.followed.resolve hthere

/-- a path that ends in the name of a file leads to it -/
theorem Names.stat {node : NodeId} (h : t.Names path loc) (hnode : t.get? loc = some (.file node)) :
    t.stat path = .ok (.file node) := by
  have hresolve := (h.endsIn (not_isLink_of_get? hnode nofun)).resolve (by rw [hnode]; exact nofun)
  exact stat_eq_ok_iff.2 ⟨loc, hresolve, hnode⟩

/-- a path by which a file can be opened ends in a name -/
theorem OpensAt.exists_names (h : t.OpensAt path loc) : ∃ named, t.Names path named := by
  obtain ⟨x, hlookup, hx, -⟩ := h.followed
  obtain ⟨p, hp, hwalk⟩ := lookup_eq_ok_iff.1 hlookup
  obtain ⟨y, hkept, hy⟩ := hwalk.exists_kept
  exact ⟨y.location, y, lookup_eq_ok_iff.2 ⟨p, hp, hkept⟩, hy hx, rfl⟩

/-- a path that leads anywhere has the name that it has in a tree with more ways -/
theorem Names.of_resolve (hk : u.KeepsWays t fun _ => False) (h : t.Names path loc) (hresolve : u.resolve path = .ok place) :
    u.Names path loc := by
  obtain ⟨x, hx, -, -⟩ := resolve_eq_ok_iff.1 hresolve
  obtain ⟨p, hp, hwalk⟩ := lookup_eq_ok_iff.1 hx
  obtain ⟨y, hkept, -⟩ := hwalk.exists_kept
  have hy : u.lookup kept path = .ok y := lookup_eq_ok_iff.2 ⟨p, hp, hkept⟩
  have hsame : t.lookup kept path = .ok y := lookup_transfer hk (fun _ => id) hy (endsAt_kept t y)
  obtain ⟨z, hz, hname⟩ := h
  cases hsame.symm.trans hz
  exact ⟨y, hy, hname⟩

/-- whatever leads through the link with this name ends where a file that is opened stands -/
theorem location_of_through (hplace : t.OpensAt path place) (hdir : t.get? place ≠ some .dir)
    (h : t.Through followed (t.Names path) x) : x.location = place := by
  obtain ⟨above, name, node, target, n, rest, slashed, hlost, hlink, -, hwalk⟩ := h
  obtain ⟨_, hlookup, ⟨dir, last, -, rfl⟩, hloc⟩ := hlost
  obtain ⟨rfl, hlast⟩ := List.append_inj' hloc rfl
  obtain ⟨rfl⟩ : last = name := by simpa using hlast
  obtain ⟨p, hp, hkept⟩ := lookup_eq_ok_iff.1 hlookup
  obtain ⟨z, hopened, -, rfl⟩ := hplace.followed
  obtain ⟨q, hq, hfollowed⟩ := lookup_eq_ok_iff.1 hopened
  cases hp.symm.trans hq
  obtain ⟨k, hbehind⟩ := hkept.behind_link hlink hfollowed rfl
  obtain ⟨y, hy, hend⟩ := hwalk.front (endsInSlash target || false)
  rw [hy.unique hbehind] at hend
  exact hend.elim Eq.symm fun h => absurd h hdir

/-- the link with this name can be lost, and only what a file opened by it is -/
theorem resolve_of_lost (hk : t.KeepsWays u (t.Names path)) (hplace : t.OpensAt path place)
    (hdir : t.get? place ≠ some .dir) (h : t.resolve other = .ok loc) (hsame : u.get? loc = t.get? loc) :
    u.resolve other = .ok loc ∨ loc = place := by
  obtain ⟨x, hx, hentry, rfl⟩ := resolve_eq_ok_iff.1 h
  obtain ⟨p, hp, hwalk⟩ := lookup_eq_ok_iff.1 hx
  have hend : u.EndsAt followed x := endsAt_of_lookup hx (IsLink.congr hsame)
  refine (hwalk.transfer_or_through hk (fun _ => id) hend).imp (fun hwalk => ?_) (location_of_through hplace hdir)
  exact resolve_eq_ok_iff.2 ⟨x, lookup_eq_ok_iff.2 ⟨p, hp, hwalk⟩, hentry.congr hsame, rfl⟩

end FileTree

end CilPatch.Files
