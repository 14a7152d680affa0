/-
The metadata of an image.

`Metadata.ofRoot` reads the metadata root on its own: nothing outside of it matters once it is found. `locateRoot`
finds it in a file through the CLI header, and `Metadata.parse` does both.
-/
import CilPatch.Metadata.Descriptor
import CilPatch.Metadata.Root
import CilPatch.Pe.Image

namespace CilPatch

open Metadata (ParseError Stream Layout Heaps TypeEntry MethodRow)

structure Metadata where
  version : Text
  tableStreamName : Text
  heapSizes : Nat
  /-- one count for each of the 64 tables -/
  rowCounts : List Nat
  types : Array TypeEntry
  methods : Array MethodRow
  deriving DecidableEq, Repr

namespace Metadata

/-- the method with this row number, counted from 1 -/
def method? (m : Metadata) (row : Nat) : Option MethodRow := if row = 0 then none else m.methods[row - 1]?

/-- the names a table stream may have, compressed and uncompressed -/
def tableStreamNames : List Text := [Text.ascii "#~", Text.ascii "#-"]

/-- the tables of a root, given its streams -/
def readTables (version streamName : Text) (h : Heaps) : Except ParseError Metadata := do
  let l ← Layout.read h.tables
  let methods ← h.readMethods l
  let types ← h.readTypes l
  return ⟨version, streamName, l.heapSizes, l.rowCounts, types.toArray, methods.toArray⟩

/-- the metadata in a root -/
def ofRoot (root : Bytes) : Except ParseError Metadata :=
  if root.u32? 0 ≠ some 0x424A5342 then .error .badRootSignature
  else
    match Root.readDirectory root with
    | .error e => .error e
    | .ok streams =>
      match Root.find? streams tableStreamNames with
      | none => .error .missingTableStream
      | some tables =>
        match Root.find? streams [Text.ascii "#Strings"], Root.find? streams [Text.ascii "#Blob"] with
        | some strings, some blobs =>
          readTables (Root.version root) (Root.lastNameAt streams tables)
            ⟨tables.data root, strings.data root, blobs.data root⟩
        | _, _ => .error .missingHeap

/-- the metadata root of a file, found through the CLI header -/
def locateRoot (file : Bytes) (sections : List Pe.Section) (cliRva : Nat) : Except ParseError Bytes :=
  if cliRva = 0 then .error .noCliHeader
  else
    match Pe.fileOffset? sections cliRva with
    | none => .error (.unmappedCliHeader cliRva)
    | some cli =>
      match file.u32? (cli + 8), file.u32? (cli + 12) with
      | some rva, some size =>
        match Pe.fileOffset? sections rva with
        | none => .error (.unmappedMetadata rva)
        | some offset =>
          match file.slice? offset size with
          | none => .error .rootPastEnd
          | some root => .ok root
      | _, _ => .error .truncatedCliHeader

/-- the metadata of a file with these sections and this address of the CLI header -/
def parse (file : Bytes) (sections : List Pe.Section) (cliRva : Nat) : Except ParseError Metadata := do
  ofRoot (← locateRoot file sections cliRva)

end Metadata

end CilPatch
