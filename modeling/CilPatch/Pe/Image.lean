/-
The headers of an executable image, as far as patching needs them.

`Image.parse` follows the DOS header to the COFF header, reads the optional header for the kind of image and for the
directory entry of the CLI header, and reads the section table. It looks at nothing else, and every failure is one
`ParseError`.
-/
import CilPatch.Pe.Section

namespace CilPatch.Pe

/-- why the headers cannot be read -/
inductive ParseError where
  | missingDosSignature
  | truncatedDosHeader
  | missingPeSignature (offset : Nat)
  | truncatedCoffHeader
  | truncatedOptionalHeader
  | unknownOptionalMagic (magic : Nat)
  | truncatedDirectories
  | truncatedSectionTable (entry : Nat)
  deriving DecidableEq, Repr

namespace ParseError

def message : ParseError → Text
  | missingDosSignature => Text.ascii "missing DOS signature"
  | truncatedDosHeader => Text.ascii "truncated DOS header"
  | missingPeSignature offset => Text.ascii "missing PE signature at offset " ++ Text.hex offset
  | truncatedCoffHeader => Text.ascii "truncated COFF header"
  | truncatedOptionalHeader => Text.ascii "truncated optional header"
  | unknownOptionalMagic magic => Text.ascii "unknown optional header magic " ++ Text.hex magic
  | truncatedDirectories => Text.ascii "truncated data directories"
  | truncatedSectionTable entry => Text.ascii "truncated section table at entry " ++ Text.decimal entry

end ParseError

/-- address and size of a structure that the optional header points to -/
structure DataDirectory where
  rva : Nat
  size : Nat
  deriving DecidableEq, Repr

/-- the fields of the COFF header that are used -/
structure CoffHeader where
  machine : Nat
  sectionCount : Nat
  optionalSize : Nat
  deriving DecidableEq, Repr

/-- the COFF header at `off` -/
def CoffHeader.read? (file : Bytes) (off : Nat) : Option CoffHeader := do
  let machine ← file.u16? off
  let sectionCount ← file.u16? (off + 2)
  let optionalSize ← file.u16? (off + 16)
  some ⟨machine, sectionCount, optionalSize⟩

/-- the fields of the optional header that are used; the CLI directory is zero when it is not listed -/
structure OptionalHeader where
  pe32Plus : Bool
  cliHeader : DataDirectory
  deriving DecidableEq, Repr

namespace OptionalHeader

/-- position of the CLI header in the list of data directories -/
def cliDirectory : Nat := 14

/-- where the number of data directories stands, for each of the two kinds of header -/
def directoryCountOffset (pe32Plus : Bool) : Nat := if pe32Plus then 108 else 92

/-- the kind of header that a magic number announces -/
def kind? (magic : Nat) : Option Bool :=
  if magic = 0x10B then some false else if magic = 0x20B then some true else none

/-- the data directory at `off` -/
def readDirectory? (file : Bytes) (off : Nat) : Option DataDirectory := do
  let rva ← file.u32? off
  let size ← file.u32? (off + 4)
  some ⟨rva, size⟩

/-- the optional header at `off` -/
def read (file : Bytes) (off : Nat) : Except ParseError OptionalHeader :=
  match file.u16? off with
  | none => .error .truncatedOptionalHeader
  | some magic =>
    match kind? magic with
    | none => .error (.unknownOptionalMagic magic)
    | some plus =>
      match file.u32? (off + directoryCountOffset plus) with
      | none => .error .truncatedOptionalHeader
      | some count =>
        if cliDirectory < count then
          match readDirectory? file (off + directoryCountOffset plus + 4 + cliDirectory * 8) with
          | none => .error .truncatedDirectories
          | some cli => .ok ⟨plus, cli⟩
        else .ok ⟨plus, ⟨0, 0⟩⟩

end OptionalHeader

/-- what the headers say about an image -/
structure Image where
  pe32Plus : Bool
  machine : Nat
  sections : List Section
  cliHeader : DataDirectory
  deriving DecidableEq, Repr

namespace Image

/-- the section table of `count` entries at `off` -/
def readSections (file : Bytes) (off count : Nat) : Except ParseError (List Section) :=
  (List.range count).mapM fun i =>
    match Section.read? file (off + i * Section.entrySize) with
    | none => .error (.truncatedSectionTable i)
    | some s => .ok s

/-- the headers after the PE signature at `lfanew` -/
def readHeaders (file : Bytes) (lfanew : Nat) : Except ParseError Image := do
  let some coff := CoffHeader.read? file (lfanew + 4) | throw .truncatedCoffHeader
  let optional ← OptionalHeader.read file (lfanew + 24)
  let sections ← readSections file (lfanew + 24 + coff.optionalSize) coff.sectionCount
  return ⟨optional.pe32Plus, coff.machine, sections, optional.cliHeader⟩

/-- the headers of a file -/
def parse (file : Bytes) : Except ParseError Image :=
  if file.u16? 0 ≠ some 0x5A4D then .error .missingDosSignature
  else
    match file.u32? 0x3C with
    | none => .error .truncatedDosHeader
    | some lfanew =>
      if file.u32? lfanew ≠ some 0x4550 then .error (.missingPeSignature lfanew)
      else readHeaders file lfanew

/-- where in the file an address of the image is loaded from -/
def fileOffset? (image : Image) (rva : Nat) : Option Nat := Pe.fileOffset? image.sections rva

end Image

end CilPatch.Pe
