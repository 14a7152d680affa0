/-
How a metadata root is laid out (II.24.2.1), up to the end of its stream directory.

The bytes of a directory are determined by the version and the streams, so a root that holds them at its start can be
compared with what `Root.readDirectory` finds in it. A file maps a root when its CLI header tells of the root's address
and the root stands where the sections load that address from.
-/
import CilPatch.Bytes.Holds
import CilPatch.Metadata.Root
import CilPatch.Pe.Section

namespace CilPatch.Metadata

/-- a string padded with NULs to the given length -/
def padTo (length : Nat) (s : Text) : List UInt8 := s ++ List.replicate (length - s.length) 0

namespace Stream

/-- the directory entry of the stream; its name has at least one NUL behind it -/
def entry (s : Stream) : List UInt8 :=
  Bytes.toLE 4 s.offset ++ Bytes.toLE 4 s.size ++ padTo (alignUp4 (s.name.length + 1)) s.name

theorem length_entry (s : Stream) : s.entry.length = entrySize s.name := by
  simp only [entry, entrySize, padTo, alignUp4, List.length_append, Bytes.length_toLE, List.length_replicate]
  omega

/-- the stream can be listed in some root, inside of which it may lie or not -/
structure Listable (s : Stream) : Prop where
  name : 0 ∉ s.name
  offset : s.offset < Bytes.limit 4
  size : s.size < Bytes.limit 4

/-- the stream lies inside the root -/
def Inside (root : Bytes) (s : Stream) : Prop := s.offset + s.size ≤ root.size

instance (root : Bytes) (s : Stream) : Decidable (s.Inside root) := inferInstanceAs (Decidable (_ ≤ _))

/-- the directory entry up to the terminator of its name -/
def head (s : Stream) : List UInt8 := Bytes.toLE 4 s.offset ++ Bytes.toLE 4 s.size ++ (s.name ++ [0])

/-- how many bytes stand behind the terminator -/
def padding (s : Stream) : Nat := alignUp4 (s.name.length + 1) - (s.name.length + 1)

end Stream

namespace Root

/-- what stands in front of the directory entries: 12 bytes, the length of the version, the version, two bytes of flags
and the number of streams -/
def front (start : List UInt8) (version : Text) (flags : List UInt8) (count : Nat) : List UInt8 :=
  start ++ Bytes.toLE 4 version.length ++ padTo (alignUp4 version.length) version ++ flags ++ Bytes.toLE 2 count

/-- the start of a root up to the end of its directory entries -/
def directory (start : List UInt8) (version : Text) (flags : List UInt8) (streams : List Stream) : List UInt8 :=
  front start version flags streams.length ++ (streams.map Stream.entry).flatten

/-- a directory of these streams can be written: each part of it fits into its place -/
structure Listable (start : List UInt8) (version : Text) (flags : List UInt8) (streams : List Stream) : Prop where
  startLength : start.length = 12
  versionLength : version.length < Bytes.limit 4
  flagsLength : flags.length = 2
  count : streams.length < Bytes.limit 2
  each : ∀ s ∈ streams, s.Listable

/-- the root starts with a directory of these streams, all of which lie inside it -/
structure LaidOut (root : Bytes) (start : List UInt8) (version : Text) (flags : List UInt8) (streams : List Stream) :
    Prop extends Listable start version flags streams where
  inside : ∀ s ∈ streams, s.Inside root
  holds : root.Holds 0 (directory start version flags streams)

/-- how many bytes of the directory stand behind its last terminator -/
def lastPadding (streams : List Stream) : Nat := (streams.getLast?.map Stream.padding).getD 0

/-- the stream is the first of the directory that has one of the names -/
def FirstStream (streams : List Stream) (names : List Text) (s : Stream) : Prop :=
  s.name ∈ names ∧ ∃ before after, streams = before ++ s :: after ∧ ∀ t ∈ before, t.name ∉ names

/-- the stream is the last of the directory that starts at the offset -/
def LastAt (streams : List Stream) (offset : Nat) (s : Stream) : Prop :=
  s.offset = offset ∧ ∃ before after, streams = before ++ s :: after ∧ ∀ t ∈ after, t.offset ≠ offset

/-- the CLI header at `cliRva` tells of the address and the size of the root, and the root stands at that address -/
def Mapped (file : Bytes) (sections : List Pe.Section) (cliRva : Nat) (root : Bytes) : Prop :=
  cliRva ≠ 0 ∧ root.size < Bytes.limit 4 ∧ ∃ cli rva offset,
    Pe.fileOffset? sections cliRva = some cli ∧ rva < Bytes.limit 4 ∧
    file.Holds (cli + 8) (Bytes.toLE 4 rva ++ Bytes.toLE 4 root.size) ∧
    Pe.fileOffset? sections rva = some offset ∧ file.Holds offset root.toList

end Root

end CilPatch.Metadata
