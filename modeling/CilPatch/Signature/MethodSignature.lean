/-
Method signatures (II.23.2.1).

A signature blob starts with a byte for the calling convention, then come the number of type parameters (generic
methods only), the number of parameters, the custom modifiers of the return type and the return type itself.
`MethodSignature.decode?` reads as far as the first byte of the return type, and one byte further for a generic
instance; the rest of the blob does not matter.
-/
import CilPatch.Blob
import CilPatch.Signature.ReturnCategory

namespace CilPatch

/-- calling conventions; `other` is a number that names none -/
inductive CallingConvention where
  | managed
  | cdecl
  | stdcall
  | thiscall
  | fastcall
  | vararg
  | other (code : Nat)
  deriving DecidableEq, Repr

namespace CallingConvention

/-- the conventions in their numbering from 0 on -/
def ofCode : Nat → CallingConvention
  | 0 => managed
  | 1 => cdecl
  | 2 => stdcall
  | 3 => thiscall
  | 4 => fastcall
  | 5 => vararg
  | code => other code

def text : CallingConvention → Text
  | managed => Text.ascii "Default"
  | cdecl => Text.ascii "Cdecl"
  | stdcall => Text.ascii "Stdcall"
  | thiscall => Text.ascii "Thiscall"
  | fastcall => Text.ascii "Fastcall"
  | vararg => Text.ascii "Vararg"
  | other code => Text.ascii "Unknown(" ++ Text.decimal code ++ Text.ascii ")"

end CallingConvention

/-- the decoded part of a method signature -/
structure MethodSignature where
  convention : CallingConvention
  hasThis : Bool
  genericArity : Nat
  paramCount : Nat
  /-- the element type of the return type, after its custom modifiers -/
  returnElement : UInt8
  returnCategory : ReturnCategory
  deriving DecidableEq, Repr

namespace MethodSignature

open Blob (Cursor)

/-- the byte starts a custom modifier, required or optional -/
def isModifier (b : UInt8) : Bool := b = 0x1F || b = 0x20

/-- skips the custom modifiers, each a byte and a compressed number; a byte that starts no modifier must follow -/
def skipModifiers (c : Cursor) : Option Cursor :=
  match c.peek? with
  | none => none
  | some b =>
    if isModifier b then
      match _h : ({ c with pos := c.pos + 1 } : Cursor).compressed with
      | (none, _) => none
      | (some _, c') => skipModifiers c'
    else some c
termination_by c.blob.size - c.pos
decreasing_by
  have := Cursor.compressed_advances ‹_›
  grind

/-- the return type at the cursor: its first byte and its category -/
def readReturn? (c : Cursor) : Option (UInt8 × ReturnCategory) :=
  match c.next with
  | (none, _) => none
  | (some element, c) =>
    if element = 0x15 then c.peek?.map fun inner => (element, .ofElement element (inner = 0x11))
    else some (element, .ofElement element false)

/-- the number of type parameters, which only generic methods have -/
def readArity (generic : Bool) (c : Cursor) : Option Nat × Cursor :=
  if generic then c.compressed else (some 0, c)

/-- the signature a blob holds -/
def decode? (blob : Bytes) : Option MethodSignature :=
  match (⟨blob, 0⟩ : Cursor).next with
  | (none, _) => none
  | (some lead, c) =>
    if 5 < lead.toNat % 16 then none
    else
      match readArity (lead.toNat.testBit 4) c with
      | (none, _) => none
      | (some arity, c) =>
        match c.compressed with
        | (none, _) => none
        | (some count, c) => do
          let c ← skipModifiers c
          let (element, category) ← readReturn? c
          some ⟨.ofCode (lead.toNat % 16), lead.toNat.testBit 5, arity, count, element, category⟩

end MethodSignature

end CilPatch
