/-
File trees: names, the files behind them, and what may go wrong.

A tree says what lies at each location below its root, which is a directory and the working directory too. The bytes of
a file belong to its node, so two locations with one node are links of the same file. Any access may be refused, and any
disk may fail while a file is read or written: `Rules` says where. `get?_put` and `get?_erase` say what an update of the
names changes.
-/
import CilPatch.Bytes
import CilPatch.Files.Path

namespace CilPatch.Files

/-- the names from the root down -/
abbrev Location := List Text

/-- what an entry that is not a directory stands for; entries with the same node are links of one another -/
abbrev NodeId := Nat

inductive Entry where
  | dir
  | file (node : NodeId)
  /-- a symbolic link -/
  | link (node : NodeId) (target : Text)
  /-- a device, a pipe or a socket: what is written to it goes elsewhere -/
  | device (node : NodeId)
  deriving DecidableEq, Repr

namespace Entry

/-- directories have no links, and no node -/
def node? : Entry → Option NodeId
  | dir => none
  | file node => some node
  | link node _ => some node
  | device node => some node

end Entry

/-- why a file operation fails -/
inductive FileError where
  | noEntry
  | notDirectory
  | isDirectory
  | nameTooLong
  | alreadyThere
  | busy
  | tooManyLinks
  /-- an access was not granted, or a disk failed -/
  | refused (reason : Text)
  deriving DecidableEq, Repr

namespace FileError

def message : FileError → Text
  | noEntry => Text.ascii "No such file or directory"
  | notDirectory => Text.ascii "Not a directory"
  | isDirectory => Text.ascii "Is a directory"
  | nameTooLong => Text.ascii "File name too long"
  | alreadyThere => Text.ascii "File exists"
  | busy => Text.ascii "Device or resource busy"
  | tooManyLinks => Text.ascii "Too many levels of symbolic links"
  | refused reason => reason

end FileError

/-- what an operation needs to be granted at a location -/
inductive Access where
  /-- looking a name up in a directory -/
  | search
  /-- following a symbolic link -/
  | follow
  /-- opening a file to read it -/
  | read
  /-- opening a file to replace its content -/
  | write
  | createFile
  | makeDirectory
  /-- taking a name away -/
  | remove
  /-- giving a name to a file that is renamed, also when another one has it -/
  | replace
  deriving DecidableEq, Repr

/-- what is refused in a tree, and where its disks fail -/
structure Rules where
  refuses : Access → Location → Option FileError
  /-- reading the file ends too early -/
  readFails : Location → Bool
  /-- writing the file fails when only so many bytes have been written -/
  writeFails : Location → Option (Nat × FileError)

namespace Rules

/-- all accesses are granted and no disk fails -/
def free : Rules := ⟨fun _ _ => none, fun _ => false, fun _ => none⟩

end Rules

/-- what lies below the root -/
structure FileTree where
  entries : List (Location × Entry)
  /-- the bytes of a file -/
  content : NodeId → Bytes
  rules : Rules

namespace FileTree

def empty : FileTree := ⟨[], fun _ => #[], .free⟩

/-! ## Names -/

/-- what lies at a location -/
def get? (t : FileTree) (loc : Location) : Option Entry :=
  if loc = [] then some .dir else (t.entries.find? fun e => e.1 = loc).map (·.2)

def put (t : FileTree) (loc : Location) (e : Entry) : FileTree :=
  { t with entries := t.entries.filter (fun x => x.1 ≠ loc) ++ [(loc, e)] }

def erase (t : FileTree) (loc : Location) : FileTree := { t with entries := t.entries.filter fun x => x.1 ≠ loc }

theorem find?_filter_ne (l : List (Location × Entry)) (loc other : Location) :
    (l.filter fun x => x.1 ≠ loc).find? (fun e => e.1 = other) =
      if other = loc then none else l.find? fun e => e.1 = other := by
  induction l with
  | nil => simp
  | cons x l ih =>
    by_cases hx : x.1 = loc <;> by_cases ho : other = loc <;> by_cases hxo : x.1 = other <;> grind

theorem get?_erase (t : FileTree) (loc other : Location) (h : other ≠ []) :
    (t.erase loc).get? other = if other = loc then none else t.get? other := by
  simp only [get?, erase, if_neg h, find?_filter_ne]
  split <;> simp

theorem get?_put (t : FileTree) (loc : Location) (e : Entry) (other : Location) (h : other ≠ []) :
    (t.put loc e).get? other = if other = loc then some e else t.get? other := by
  simp only [get?, put, if_neg h, List.find?_append, find?_filter_ne]
  by_cases ho : other = loc
  · simp [ho]
  · simp [ho, Ne.symm ho]

/-! ## Files -/

/-- the file has these bytes now -/
def setContent (t : FileTree) (node : NodeId) (bytes : Bytes) : FileTree :=
  { t with content := fun other => if other = node then bytes else t.content other }

/-- a node that no entry has -/
def freshNode (t : FileTree) : NodeId := (t.entries.filterMap fun e => e.2.node?).foldr max 0 + 1

/-- puts a new file with these bytes at a location -/
def putFile (t : FileTree) (loc : Location) (bytes : Bytes) : FileTree :=
  (t.put loc (.file t.freshNode)).setContent t.freshNode bytes

/-! ## Rules -/

/-- the access is granted, or it fails -/
def grant (t : FileTree) (access : Access) (loc : Location) : Except FileError Unit :=
  match t.rules.refuses access loc with
  | some e => .error e
  | none => .ok ()

end FileTree

end CilPatch.Files
