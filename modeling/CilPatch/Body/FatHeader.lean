/-
Fat headers as records of their fields, and the bytes they are written as (II.25.4).

`BodyHeader.StandsAt` says which header the bytes at an offset are, tiny or fat; `BodyHeader.Refused` says why bytes do
not start with a header.
-/
import CilPatch.Body.Header
import CilPatch.Bytes.Holds

namespace CilPatch

structure FatHeader where
  /-- the low 12 bits of the first word, with the format in the lowest two -/
  flags : Nat
  /-- the header size in units of four bytes -/
  units : Nat
  maxStack : Nat
  codeSize : Nat
  localsToken : Nat
  deriving DecidableEq, Repr

namespace FatHeader

/-- every field fits into its place, and the format is the fat one -/
structure Fits (h : FatHeader) : Prop where
  flags : h.flags < 0x1000
  format : h.flags % 4 = 3
  units : h.units < 0x10
  maxStack : h.maxStack < Bytes.limit 2
  codeSize : h.codeSize < Bytes.limit 4
  localsToken : h.localsToken < Bytes.limit 4

/-- the 12 bytes of the header -/
def bytes (h : FatHeader) : List UInt8 :=
  Bytes.toLE 2 (h.flags + 0x1000 * h.units) ++ Bytes.toLE 2 h.maxStack ++ Bytes.toLE 4 h.codeSize
    ++ Bytes.toLE 4 h.localsToken

/-- what patching needs to know of the header -/
def header (h : FatHeader) : BodyHeader := ⟨.fat, 4 * h.units, h.codeSize, h.flags, h.flags.testBit 3⟩

theorem length_bytes (h : FatHeader) : h.bytes.length = BodyHeader.fatSize := by simp [bytes, BodyHeader.fatSize]

end FatHeader

/-- the header stands at the offset: a tiny one, or a fat one of at least 12 bytes whose body has a 32-bit size -/
inductive BodyHeader.StandsAt (b : Bytes) (off : Nat) : BodyHeader → Prop where
  | tiny (codeSize : Nat) (hcode : codeSize < 64) (h : b.Holds off (Bytes.toLE 1 (4 * codeSize + 2))) :
      StandsAt b off ⟨.tiny, 1, codeSize, 0, false⟩
  | fat (f : FatHeader) (hfits : f.Fits) (hunits : 3 ≤ f.units) (hspan : 4 * f.units + f.codeSize < Bytes.limit 4)
      (h : b.Holds off f.bytes) : StandsAt b off f.header

/-- the bytes do not start with a header: there are none, the format is no format, a fat header is cut short or has too
few units, or its body does not have a 32-bit size -/
inductive BodyHeader.Refused : List UInt8 → HeaderError → Prop where
  | noBytes : Refused [] .noBytes
  | unknownFormat {x : UInt8} {rest : List UInt8} (hformat : x.toNat % 4 = 0 ∨ x.toNat % 4 = 1) :
      Refused (x :: rest) (.unknownFormat x.toNat)
  | truncatedFat {x : UInt8} {rest : List UInt8} (hformat : x.toNat % 4 = 3) (hlength : rest.length + 1 < 12) :
      Refused (x :: rest) .truncatedFat
  | headerTooSmall {x y : UInt8} {rest : List UInt8} (hformat : x.toNat % 4 = 3) (hlength : 12 ≤ rest.length + 2)
      (hunits : y.toNat / 16 < 3) : Refused (x :: y :: rest) (.headerTooSmall (4 * (y.toNat / 16)))
  | codeTooLarge {f : FatHeader} {rest : List UInt8} (hfits : f.Fits) (hunits : 3 ≤ f.units)
      (hspan : Bytes.limit 4 ≤ 4 * f.units + f.codeSize) : Refused (f.bytes ++ rest) (.codeTooLarge f.codeSize)

end CilPatch
