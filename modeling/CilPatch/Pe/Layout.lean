/-
How the headers of an executable image are laid out, as what the file holds at which offsets.

Nothing is said about the bytes in between, behind or beside the fields that are listed, so a file may be laid out as
an image whatever else is in it.
-/
import CilPatch.Bytes.Holds
import CilPatch.Pe.Image

namespace CilPatch.Pe

namespace Section

/-- the first 24 bytes of the table entry, which are those that count -/
def entry (s : Section) : List UInt8 :=
  s.name ++ List.replicate (8 - s.name.length) 0 ++ Bytes.toLE 4 s.virtualSize ++ Bytes.toLE 4 s.virtualAddress
    ++ Bytes.toLE 4 s.rawSize ++ Bytes.toLE 4 s.rawPointer

/-- the name is short enough and holds no NUL, and all numbers are 32-bit -/
structure Fits (s : Section) : Prop where
  nameLength : s.name.length ≤ 8
  name : 0 ∉ s.name
  virtualSize : s.virtualSize < Bytes.limit 4
  virtualAddress : s.virtualAddress < Bytes.limit 4
  rawSize : s.rawSize < Bytes.limit 4
  rawPointer : s.rawPointer < Bytes.limit 4

end Section

/-- the numbers in the headers that only say where other things are -/
structure Placement where
  lfanew : Nat
  optionalSize : Nat
  directoryCount : Nat
  deriving DecidableEq, Repr

namespace Placement

/-- where the optional header starts, behind the signature and the COFF header -/
def optional (p : Placement) : Nat := p.lfanew + 24

/-- where the number of data directories stands -/
def directories (p : Placement) (pe32Plus : Bool) : Nat :=
  p.optional + OptionalHeader.directoryCountOffset pe32Plus

/-- where the entry of the CLI header stands -/
def cliDirectory (p : Placement) (pe32Plus : Bool) : Nat :=
  p.directories pe32Plus + 4 + OptionalHeader.cliDirectory * 8

/-- where a section table entry stands -/
def sectionEntry (p : Placement) (i : Nat) : Nat := p.optional + p.optionalSize + i * Section.entrySize

end Placement

namespace Image

/-- the fields fit into their places, and an unlisted CLI directory is zero -/
structure Fits (image : Image) (p : Placement) : Prop where
  lfanew : p.lfanew < Bytes.limit 4
  optionalSize : p.optionalSize < Bytes.limit 2
  directoryCount : p.directoryCount < Bytes.limit 4
  machine : image.machine < Bytes.limit 2
  sectionCount : image.sections.length < Bytes.limit 2
  sections : ∀ s ∈ image.sections, s.Fits
  cliRva : image.cliHeader.rva < Bytes.limit 4
  cliSize : image.cliHeader.size < Bytes.limit 4
  cliAbsent : p.directoryCount ≤ OptionalHeader.cliDirectory → image.cliHeader = ⟨0, 0⟩

/-- the file holds the headers of the image -/
structure LaidOut (image : Image) (p : Placement) (file : Bytes) : Prop where
  dos : file.Holds 0 (Bytes.toLE 2 0x5A4D)
  lfanew : file.Holds 0x3C (Bytes.toLE 4 p.lfanew)
  signature : file.Holds p.lfanew (Bytes.toLE 4 0x4550)
  machine : file.Holds (p.lfanew + 4) (Bytes.toLE 2 image.machine)
  sectionCount : file.Holds (p.lfanew + 6) (Bytes.toLE 2 image.sections.length)
  optionalSize : file.Holds (p.lfanew + 20) (Bytes.toLE 2 p.optionalSize)
  kind : file.Holds p.optional (Bytes.toLE 2 (if image.pe32Plus then 0x20B else 0x10B))
  directoryCount : file.Holds (p.directories image.pe32Plus) (Bytes.toLE 4 p.directoryCount)
  cli : OptionalHeader.cliDirectory < p.directoryCount →
    file.Holds (p.cliDirectory image.pe32Plus)
      (Bytes.toLE 4 image.cliHeader.rva ++ Bytes.toLE 4 image.cliHeader.size)
  sections : ∀ (i : Nat) (s : Section), image.sections[i]? = some s → file.Holds (p.sectionEntry i) s.entry

end Image

end CilPatch.Pe
