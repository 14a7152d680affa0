/-
Where a path leads.

A path is followed name by name from the root. A symbolic link on the way is followed to its target, which leads on from
the directory of the link, or from the root, and then the names behind the link are followed; only so many links are
followed for one path. Whether a link in the last place is followed depends on what the path is looked up for.
-/
import CilPatch.Files.Tree

namespace CilPatch.Files

/-- the longest name a directory may hold -/
def maxName : Nat := 255

/-- paths of this length and longer are refused -/
def maxPath : Nat := 4096

/-- the most symbolic links that are followed for one path -/
def maxLinks : Nat := 40

/-- names to follow, and whether a slash stands behind the last one -/
structure Route where
  names : List Text
  slashed : Bool
  deriving DecidableEq, Repr

namespace Route

def ofPath (path : Text) : Route := ⟨components path, endsInSlash path⟩

/-- the route with more names behind it -/
def andThen (r : Route) (rest : List Text) (slashed : Bool) : Route :=
  ⟨r.names ++ rest, if rest = [] then r.slashed || slashed else slashed⟩

end Route

/-- where a route ends -/
inductive Target where
  /-- a name in a directory; it may have no entry, and a slash may stand behind it -/
  | named (dir : Location) (name : Text) (slashed : Bool)
  /-- a directory that is not named: the root, the one the route stands in or the one above -/
  | special (dir : Location)
  deriving DecidableEq, Repr

namespace FileTree

/-! ## Following names -/

/-- a name can be looked up in the directory -/
def enter (t : FileTree) (dir : Location) : Except FileError Unit :=
  if t.get? dir ≠ some .dir then .error .notDirectory else t.grant .search dir

/-- the directory that a target of a link leads on from -/
def startOf (dir : Location) (target : Text) : Location := if target.head? = some slash then [] else dir

/-- follows the names from a directory; a link is handed to `next`. A link in the last place is followed if `last` says
so, which is told whether a slash stands behind it. -/
def walkWith (t : FileTree) (last : Bool → Bool) (next : Location → Route → Except FileError Target) :
    Location → List Text → Bool → Except FileError Target
  | dir, [], _ => .ok (.special dir)
  | dir, name :: rest, slashed => do
    t.enter dir
    if name = dot then walkWith t last next dir rest slashed
    else if name = dotDot then walkWith t last next dir.dropLast rest slashed
    else
      match t.get? (dir ++ [name]) with
      | some (.link _ target) =>
        if rest = [] ∧ last slashed = false then .ok (.named dir name slashed)
        else if maxName < name.length then .error .nameTooLong
        else do
          t.grant .follow (dir ++ [name])
          next (startOf dir target) ((Route.ofPath target).andThen rest slashed)
      | entry =>
        if rest = [] then .ok (.named dir name slashed)
        else if maxName < name.length then .error .nameTooLong
        else if entry = none then .error .noEntry
        else walkWith t last next (dir ++ [name]) rest slashed

/-- follows a route from a directory, and at most so many links on it -/
def walk (t : FileTree) (last : Bool → Bool) : (links : Nat) → Location → Route → Except FileError Target
  | 0, dir, r => t.walkWith last (fun _ _ => .error .tooManyLinks) dir r.names r.slashed
  | links + 1, dir, r => t.walkWith last (t.walk last links) dir r.names r.slashed

/-! ## Paths -/

/-- a path as a system call sees it: it ends at the first NUL, is not empty and not too long -/
def checkPath (path : Text) : Except FileError Text :=
  let p := Text.untilNul path
  if p = [] then .error .noEntry else if maxPath ≤ p.length then .error .nameTooLong else .ok p

/-- where a path ends -/
def lookup (t : FileTree) (last : Bool → Bool) (path : Text) : Except FileError Target := do
  let p ← checkPath path
  t.walk last maxLinks [] (Route.ofPath p)

/-- a link in the last place is followed -/
def followed (_slashed : Bool) : Bool := true

/-- a link in the last place is what the path means -/
def kept (_slashed : Bool) : Bool := false

/-- a link in the last place is followed unless a slash stands behind it: no file has a slash behind its name -/
def followedToFile (slashed : Bool) : Bool := !slashed

/-- the location of the entry a path leads to -/
def resolve (t : FileTree) (path : Text) : Except FileError Location := do
  match ← t.lookup followed path with
  | .special dir => .ok dir
  | .named dir name slashed =>
    if maxName < name.length then .error .nameTooLong
    else if t.get? (dir ++ [name]) = none then .error .noEntry
    else if slashed && t.get? (dir ++ [name]) ≠ some .dir then .error .notDirectory
    else .ok (dir ++ [name])

/-- the entry a path leads to -/
def stat (t : FileTree) (path : Text) : Except FileError Entry := do
  match t.get? (← t.resolve path) with
  | some e => .ok e
  | none => .error .noEntry

end FileTree

end CilPatch.Files
