/-
The opcodes of method bodies that default bodies are made of, and those that fetch arguments.

Each takes one byte. `ofByte?_byte` says that an opcode is known by its byte.
-/
import CilPatch.Bytes

namespace CilPatch

inductive Opcode where
  | nop
  /-- pushes an argument, one of the first four -/
  | ldarg (n : Fin 4)
  | ldnull
  | ldcI4Zero
  | ret
  | convI8
  | convR4
  | convR8
  | convI
  deriving DecidableEq, Repr

namespace Opcode

def byte : Opcode → UInt8
  | nop => 0x00
  | ldarg n => 0x02 + UInt8.ofNat n.val
  | ldnull => 0x14
  | ldcI4Zero => 0x16
  | ret => 0x2A
  | convI8 => 0x6A
  | convR4 => 0x6B
  | convR8 => 0x6C
  | convI => 0xD3

/-- the opcode with this byte -/
def ofByte? (b : UInt8) : Option Opcode :=
  match b.toNat with
  | 0x00 => some nop
  | 0x02 => some (ldarg 0)
  | 0x03 => some (ldarg 1)
  | 0x04 => some (ldarg 2)
  | 0x05 => some (ldarg 3)
  | 0x14 => some ldnull
  | 0x16 => some ldcI4Zero
  | 0x2A => some ret
  | 0x6A => some convI8
  | 0x6B => some convR4
  | 0x6C => some convR8
  | 0xD3 => some convI
  | _ => none

theorem ofByte?_byte (op : Opcode) : ofByte? op.byte = some op := by
  cases op with
  | ldarg n => revert n; decide
  | _ => rfl

end Opcode

end CilPatch
