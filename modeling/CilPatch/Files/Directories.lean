/-
Creating a directory together with the directories above it.

`missingDirectories` climbs from the path to the first directory that exists and collects what has to be created, the
highest first; `makeDirectories` creates it. When a creation fails, the directories created so far stay.
-/
import CilPatch.Files.Operations

namespace CilPatch.Files

namespace FileError

/-- nothing is there -/
def IsMissing (e : FileError) : Prop := e = .noEntry ∨ e = .notDirectory

instance (e : FileError) : Decidable e.IsMissing := inferInstanceAs (Decidable (_ ∨ _))

end FileError

namespace FileTree

/-- more missing directories than this are refused -/
def maxMissing : Nat := 1000

/-- the path itself when its last name names something, and then the missing ones -/
def pushMissing (path : Text) (missing : List Text) : List Text :=
  if fileName path = dot ∨ fileName path = dotDot then missing else path :: missing

/-- the directories to create for a path that does not exist, the highest first, above those already found missing; the
climb ends where it cannot be told what is there -/
def missingDirectories (t : FileTree) (path : Text) (missing : List Text) : Except FileError (List Text) :=
  let missing := pushMissing path missing
  if maxMissing < missing.length then .error .nameTooLong
  else if parent path = [] then .ok missing
  else
    match t.stat (parent path) with
    | .ok .dir => .ok missing
    | .ok _ => .error .notDirectory
    | .error e =>
      if e.IsMissing ∧ (parent path).length < path.length then missingDirectories t (parent path) missing
      else .ok missing
termination_by path.length

/-- creates the directories in order; one that is there already is passed over -/
def makeAll (t : FileTree) : List Text → Except FileError Unit × FileTree
  | [] => (.ok (), t)
  | path :: paths =>
    match t.makeDirectory path with
    | .ok t' => makeAll t' paths
    | .error e =>
      match e, t.stat path with
      | .alreadyThere, .ok .dir => makeAll t paths
      | _, _ => (.error e, t)

/-- makes the path a directory and creates the directories above it that are missing -/
def makeDirectories (t : FileTree) (path : Text) : Except FileError Unit × FileTree :=
  match t.stat path with
  | .ok .dir => (.ok (), t)
  | .ok _ => (.error .notDirectory, t)
  | .error e =>
    if e.IsMissing then
      match t.missingDirectories (if fileName path = [] then parent path else path) [] with
      | .ok missing => t.makeAll missing
      | .error e => (.error e, t)
    else (.error e, t)

end FileTree

end CilPatch.Files
