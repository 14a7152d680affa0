/-
The grammar of method signatures (II.23.2.1), as a relation between bytes and what they say.

A compressed number has one, two or four bytes, and the longer forms may hold small numbers too. `SignatureForm` lists
the parts of a signature in order: the lead byte, the number of type parameters of a generic method, the number of
parameters, custom modifiers, the first byte of the return type, and the rest.
-/
import CilPatch.Signature.MethodSignature

namespace CilPatch

namespace Blob

/-- the bytes are a compressed form of the number -/
inductive Compressed : List UInt8 → Nat → Prop where
  | one (a : UInt8) (ha : a.toNat < 0x80) : Compressed [a] a.toNat
  | two (a b : UInt8) (ha : 0x80 ≤ a.toNat) (ha' : a.toNat < 0xC0) :
      Compressed [a, b] ((a.toNat - 0x80) * 256 + b.toNat)
  | four (a b c d : UInt8) (ha : 0xC0 ≤ a.toNat) (ha' : a.toNat < 0xE0) :
      Compressed [a, b, c, d] ((((a.toNat - 0xC0) * 256 + b.toNat) * 256 + c.toNat) * 256 + d.toNat)

end Blob

namespace MethodSignature

open Blob (Compressed)

/-- a custom modifier: a marker and the compressed number behind it -/
@[ext]
structure Modifier where
  marker : UInt8
  token : List UInt8
  deriving DecidableEq, Repr

namespace Modifier

def bytes (m : Modifier) : List UInt8 := m.marker :: m.token

/-- the marker says required or optional, whatever the number is -/
structure WellFormed (m : Modifier) : Prop where
  marker : m.marker = 0x1F ∨ m.marker = 0x20
  token : ∃ n, Compressed m.token n

end Modifier

/-- the number of type parameters is there for generic methods only -/
inductive Arity : Bool → List UInt8 → Nat → Prop where
  | plain : Arity false [] 0
  | generic (bytes : List UInt8) (n : Nat) (h : Compressed bytes n) : Arity true bytes n

/-- the parts of a signature -/
@[ext]
structure Parts where
  lead : UInt8
  arityBytes : List UInt8
  arity : Nat
  countBytes : List UInt8
  count : Nat
  modifiers : List Modifier
  element : UInt8
  rest : List UInt8
  deriving DecidableEq, Repr

namespace Parts

/-- the parts one after the other -/
def bytes (p : Parts) : List UInt8 :=
  p.lead :: (p.arityBytes ++ (p.countBytes ++ (p.modifiers.flatMap Modifier.bytes ++ p.element :: p.rest)))

/-- the parts are well-formed, each on its own -/
structure WellFormed (p : Parts) : Prop where
  /-- the low half of the lead byte is a calling convention of a method -/
  convention : p.lead.toNat % 16 ≤ 5
  arity : Arity (p.lead.toNat.testBit 4) p.arityBytes p.arity
  count : Compressed p.countBytes p.count
  modifiers : ∀ m ∈ p.modifiers, m.WellFormed
  element : p.element ≠ 0x1F ∧ p.element ≠ 0x20
  /-- a generic instance says of what -/
  rest : p.element = 0x15 → p.rest ≠ []

/-- what the parts say -/
def signature (p : Parts) : MethodSignature :=
  ⟨.ofCode (p.lead.toNat % 16), p.lead.toNat.testBit 5, p.arity, p.count, p.element,
    .ofElement p.element (p.element = 0x15 ∧ p.rest.head? = some 0x11)⟩

end Parts

/-- the bytes are a signature that says this -/
def SignatureForm (blob : List UInt8) (s : MethodSignature) : Prop :=
  ∃ p : Parts, p.WellFormed ∧ p.bytes = blob ∧ p.signature = s

end MethodSignature

end CilPatch
