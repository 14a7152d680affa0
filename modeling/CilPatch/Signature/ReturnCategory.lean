/-
Return categories: what a method leaves on the evaluation stack when it returns.

`ofElement` sorts the element type of a return type (II.23.1.16) into the categories. Only types whose default value is
known without looking at other tables are supported; value types, type variables and typed references are not.
-/
import CilPatch.Text

namespace CilPatch

/-- the shapes of return value; `other` is a number that names no category -/
inductive ReturnCategory where
  | void
  | int32
  | int64
  | nativeInt
  | float32
  | float64
  | reference
  | unsupported
  | other (code : Nat)
  deriving DecidableEq, Repr

namespace ReturnCategory

/-- the categories in their numbering from 0 on -/
def ofCode : Nat → ReturnCategory
  | 0 => void
  | 1 => int32
  | 2 => int64
  | 3 => nativeInt
  | 4 => float32
  | 5 => float64
  | 6 => reference
  | 7 => unsupported
  | code => other code

def text : ReturnCategory → Text
  | void => Text.ascii "void"
  | int32 => Text.ascii "int32"
  | int64 => Text.ascii "int64"
  | nativeInt => Text.ascii "native int"
  | float32 => Text.ascii "float32"
  | float64 => Text.ascii "float64"
  | reference => Text.ascii "reference"
  | unsupported => Text.ascii "unsupported"
  | other _ => Text.ascii "unknown"

/-- the category of an element type; the flag tells, for a generic instance, that it is one of a value type -/
def ofElement (element : UInt8) (genericOfValueType : Bool) : ReturnCategory :=
  match element.toNat with
  | 0x01 => void
  -- boolean, char and the integers of at most 32 bits
  | 0x02 | 0x03 | 0x04 | 0x05 | 0x06 | 0x07 | 0x08 | 0x09 => int32
  | 0x0A | 0x0B => int64
  -- native integers, pointers, by-ref and function pointers
  | 0x18 | 0x19 | 0x0F | 0x10 | 0x1B => nativeInt
  | 0x0C => float32
  | 0x0D => float64
  -- string, class, object and arrays
  | 0x0E | 0x12 | 0x1C | 0x14 | 0x1D => reference
  | 0x15 => if genericOfValueType then unsupported else reference
  | _ => unsupported

end ReturnCategory

end CilPatch
