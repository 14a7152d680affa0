/-
The operations of a file system.

Every operation takes paths, looks them up and answers with the new tree or the reason why it failed. One that fails
changes nothing, except that a file may have been written in part when its disk fails. Reading and writing follow
symbolic links; renaming and removing are about the name that the path ends with, whatever it stands for.
-/
import CilPatch.Files.Lookup

namespace CilPatch.Files

/-- why a file cannot be read -/
inductive ReadError where
  | failed (cause : FileError)
  | notFile
  /-- there were fewer bytes than the file has -/
  | ended
  deriving DecidableEq, Repr

namespace ReadError

def message : ReadError → Text
  | failed cause => cause.message
  | notFile => Text.ascii "not a regular file"
  | ended => Text.ascii "short read"

end ReadError

namespace FileTree

/-! ## Reading -/

/-- the bytes of the file that a path leads to -/
def readFile (t : FileTree) (path : Text) : Except ReadError Bytes :=
  match t.resolve path with
  | .error e => .error (.failed e)
  | .ok loc =>
    match t.get? loc with
    | none => .error (.failed .noEntry)
    | some (.file node) =>
      match t.grant .read loc with
      | .error e => .error (.failed e)
      | .ok () => if t.content node ≠ #[] ∧ t.rules.readFails loc then .error .ended else .ok (t.content node)
    | some _ => .error .notFile

/-! ## Writing -/

/-- opens the file a path leads to and empties it, or creates it; the location is where it stands -/
def openFile (t : FileTree) (path : Text) : Except FileError (Location × FileTree) := do
  match ← t.lookup followedToFile path with
  | .special _ => .error .isDirectory
  | .named dir name slashed =>
    let loc := dir ++ [name]
    if slashed then .error .isDirectory
    else if maxName < name.length then .error .nameTooLong
    else
      match t.get? loc with
      | none => do
        t.grant .createFile loc
        .ok (loc, t.putFile loc #[])
      | some .dir => .error .isDirectory
      | some (.file node) => do
        t.grant .write loc
        .ok (loc, t.setContent node #[])
      | some _ => do
        t.grant .write loc
        .ok (loc, t)

/-- writes to the file that was opened at a location -/
def storeFile (t : FileTree) (loc : Location) (bytes : Bytes) : FileTree :=
  match t.get? loc with
  | some (.file node) => t.setContent node bytes
  | _ => t

/-- writes all bytes to the file that was opened at a location, or as many as its disk takes -/
def fillFile (t : FileTree) (loc : Location) (bytes : Bytes) : Except FileError Unit × FileTree :=
  match t.rules.writeFails loc with
  | some (size, e) => (.error e, t.storeFile loc (bytes.extract 0 size))
  | none => (.ok (), t.storeFile loc bytes)

/-! ## Names -/

def makeDirectory (t : FileTree) (path : Text) : Except FileError FileTree := do
  match ← t.lookup kept path with
  | .special _ => .error .alreadyThere
  | .named dir name _ =>
    if maxName < name.length then .error .nameTooLong
    else if t.get? (dir ++ [name]) ≠ none then .error .alreadyThere
    else do
      t.grant .makeDirectory (dir ++ [name])
      .ok (t.put (dir ++ [name]) .dir)

/-- gives what is named `source` the name `target`, which is taken from whatever had it; nothing happens when both name
the same already -/
def renameFile (t : FileTree) (source target : Text) : Except FileError FileTree := do
  match ← t.lookup kept source, ← t.lookup kept target with
  | .named oldDir oldName oldSlashed, .named newDir newName newSlashed =>
    let old := oldDir ++ [oldName]
    let new := newDir ++ [newName]
    if maxName < oldName.length then .error .nameTooLong
    else
      match t.get? old with
      | none => .error .noEntry
      | some .dir => .error .isDirectory
      | some entry =>
        if maxName < newName.length then .error .nameTooLong
        else if oldSlashed || newSlashed then .error .notDirectory
        else if t.get? new = some entry then .ok t
        else do
          t.grant .remove old
          t.grant .replace new
          if t.get? new = some .dir then .error .isDirectory else .ok ((t.erase old).put new entry)
  | _, _ => .error .busy

/-- takes the name away that a path ends with; nothing happens when that fails, or when it names a directory -/
def removeFile (t : FileTree) (path : Text) : FileTree :=
  match t.lookup kept path with
  | .ok (.named dir name false) =>
    if maxName < name.length then t
    else
      match t.get? (dir ++ [name]) with
      | none => t
      | some .dir => t
      | some _ => if t.rules.refuses .remove (dir ++ [name]) = none then t.erase (dir ++ [name]) else t
  | _ => t

end FileTree

end CilPatch.Files
