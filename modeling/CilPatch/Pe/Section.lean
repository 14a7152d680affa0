/-
Sections: which part of the file each range of virtual addresses is loaded from.

A section covers the addresses from its virtual address on, for the larger of its virtual and its raw size: some
linkers leave the virtual size zero. An address belongs to the first section in table order that covers it, and its
place in the file is computed with 32-bit arithmetic.
-/
import CilPatch.Bytes

namespace CilPatch.Pe

/-- one entry of the section table; all numbers are 32-bit -/
structure Section where
  name : Text
  virtualSize : Nat
  virtualAddress : Nat
  rawSize : Nat
  rawPointer : Nat
  deriving DecidableEq, Repr

namespace Section

/-- how many bytes of the address space the section takes -/
def extent (s : Section) : Nat := max s.virtualSize s.rawSize

/-- the address lies in the mapped range of the section -/
def contains (s : Section) (rva : Nat) : Bool := s.virtualAddress ≤ rva && rva - s.virtualAddress < s.extent

/-- where in the file an address of the section is loaded from -/
def offsetOf (s : Section) (rva : Nat) : Nat := (rva - s.virtualAddress + s.rawPointer) % 0x100000000

/-- written `{name} (va: .., vsize: .., raw: .., rawsize: ..)` with the numbers in hexadecimal -/
def text (s : Section) : Text :=
  s.name ++ Text.ascii " (va: " ++ Text.hex s.virtualAddress ++ Text.ascii ", vsize: " ++ Text.hex s.virtualSize
    ++ Text.ascii ", raw: " ++ Text.hex s.rawPointer ++ Text.ascii ", rawsize: " ++ Text.hex s.rawSize
    ++ Text.ascii ")"

/-- size of a table entry in the file -/
def entrySize : Nat := 40

/-- the table entry at `off`; the name is padded with NULs but not terminated when it takes all 8 bytes -/
def read? (file : Bytes) (off : Nat) : Option Section := do
  let name ← file.slice? off 8
  let virtualSize ← file.u32? (off + 8)
  let virtualAddress ← file.u32? (off + 12)
  let rawSize ← file.u32? (off + 16)
  let rawPointer ← file.u32? (off + 20)
  some ⟨Text.untilNul name.toList, virtualSize, virtualAddress, rawSize, rawPointer⟩

theorem contains_iff {s : Section} {rva : Nat} :
    s.contains rva = true ↔ s.virtualAddress ≤ rva ∧ rva < s.virtualAddress + s.extent := by
  simp [contains]
  omega

end Section

/-- the first section that covers the address -/
def owner? (sections : List Section) (rva : Nat) : Option Section := sections.find? (·.contains rva)

/-- where in the file the address is loaded from -/
def fileOffset? (sections : List Section) (rva : Nat) : Option Nat :=
  (owner? sections rva).map (·.offsetOf rva)

end CilPatch.Pe
