/-
The metadata root (II.24.2.1): a version string and a directory of named streams.

The version is padded to a multiple of four, and so is every stream name with its terminator, so the place of a stream
header depends on everything before it. `readDirectory` gives the streams in their order and refuses a directory that
is cut short or lists a stream which leaves the root.
-/
import CilPatch.Bytes
import CilPatch.Metadata.Error

namespace CilPatch.Metadata

/-- the least multiple of four that is not below `n` -/
def alignUp4 (n : Nat) : Nat := (n + 3) / 4 * 4

/-- an entry of the stream directory; the offset counts from the start of the root -/
structure Stream where
  name : Text
  offset : Nat
  size : Nat
  deriving DecidableEq, Repr

namespace Stream

/-- the bytes of the stream -/
def data (root : Bytes) (s : Stream) : Bytes := root.extract s.offset (s.offset + s.size)

/-- how many bytes a directory entry with this name takes -/
def entrySize (name : Text) : Nat := 8 + alignUp4 (name.length + 1)

/-- the directory entry number `index`, which stands at `pos` -/
def read (root : Bytes) (index pos : Nat) : Except ParseError Stream :=
  match root.u32? pos, root.u32? (pos + 4), root.cstring? (pos + 8) with
  | some offset, some size, some name =>
    if offset + size ≤ root.size then .ok ⟨name, offset, size⟩
    else .error (.streamOutsideRoot name offset size)
  | _, _, _ => .error (.truncatedStreamHeader index)

end Stream

namespace Root

/-- reads `count` directory entries, the first of them number `index` at `pos`, behind those already seen -/
def readStreams (root : Bytes) : (count index pos : Nat) → (seen : Array Stream) → Except ParseError (Array Stream)
  | 0, _, _, seen => .ok seen
  | count + 1, index, pos, seen =>
    match Stream.read root index pos with
    | .error e => .error e
    | .ok s => readStreams root count (index + 1) (pos + Stream.entrySize s.name) (seen.push s)

/-- the stream directory, which follows the version, two bytes of flags and the number of streams -/
def readDirectory (root : Bytes) : Except ParseError (Array Stream) :=
  match root.u32? 12 with
  | none => .error .truncatedRoot
  | some length =>
    let pos := 16 + alignUp4 length
    match root.u16? (pos + 2) with
    | none => .error .truncatedRoot
    | some count => readStreams root count 0 (pos + 4) #[]

/-- the version string: empty when the root is too short for it -/
def version (root : Bytes) : Text :=
  match root.u32? 12 with
  | none => []
  | some length =>
    match root.slice? 16 length with
    | none => []
    | some s => Text.untilNul s.toList

/-- the first stream with one of the names -/
def find? (streams : Array Stream) (names : List Text) : Option Stream := streams.find? fun s => names.contains s.name

/-- the last name in the directory of a stream that starts where `s` does -/
def lastNameAt (streams : Array Stream) (s : Stream) : Text :=
  ((streams.toList.reverse.find? fun t => t.offset = s.offset).map (·.name)).getD []

end Root

end CilPatch.Metadata
