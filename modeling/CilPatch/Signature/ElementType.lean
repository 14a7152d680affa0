/-
Element types by name (II.23.1.16), and the return types that a default value is known for.

`ReturnCategory.ofElement` goes by numbers and sees no more than one bit of what is behind them. `ReturnType` is the
closed set itself: void, the primitive types, pointers, the object types, and the generic instances of classes.
-/
import Mathlib.Data.Fintype.Basic
import CilPatch.Signature.Grammar

namespace CilPatch

/-- what the first byte of a return type may stand for -/
inductive ElementType where
  | void
  | boolean
  | char
  | int8
  | uint8
  | int16
  | uint16
  | int32
  | uint32
  | int64
  | uint64
  | float32
  | float64
  | string
  | pointer
  | byRef
  | valueType
  | classType
  | typeVariable
  | array
  | genericInstance
  | typedReference
  | nativeInt
  | nativeUInt
  | functionPointer
  | object
  | vector
  | methodVariable
  deriving DecidableEq, Repr

namespace ElementType

def all : List ElementType :=
  [void, boolean, char, int8, uint8, int16, uint16, int32, uint32, int64, uint64, float32, float64, string, pointer,
    byRef, valueType, classType, typeVariable, array, genericInstance, typedReference, nativeInt, nativeUInt,
    functionPointer, object, vector, methodVariable]

instance : Fintype ElementType := .ofList all fun t => by cases t <;> decide

def code : ElementType → UInt8
  | void => 0x01
  | boolean => 0x02
  | char => 0x03
  | int8 => 0x04
  | uint8 => 0x05
  | int16 => 0x06
  | uint16 => 0x07
  | int32 => 0x08
  | uint32 => 0x09
  | int64 => 0x0A
  | uint64 => 0x0B
  | float32 => 0x0C
  | float64 => 0x0D
  | string => 0x0E
  | pointer => 0x0F
  | byRef => 0x10
  | valueType => 0x11
  | classType => 0x12
  | typeVariable => 0x13
  | array => 0x14
  | genericInstance => 0x15
  | typedReference => 0x16
  | nativeInt => 0x18
  | nativeUInt => 0x19
  | functionPointer => 0x1B
  | object => 0x1C
  | vector => 0x1D
  | methodVariable => 0x1E

/-- the type is a value of unknown size, or may stand for one -/
def IsValue (t : ElementType) : Prop := t = valueType ∨ t = typeVariable ∨ t = methodVariable ∨ t = typedReference

/-- what a value of the type is on the evaluation stack, where the first byte of the type tells -/
def category? : ElementType → Option ReturnCategory
  | void => some .void
  | boolean | char | int8 | uint8 | int16 | uint16 | int32 | uint32 => some .int32
  | int64 | uint64 => some .int64
  | nativeInt | nativeUInt | pointer | byRef | functionPointer => some .nativeInt
  | float32 => some .float32
  | float64 => some .float64
  | string | classType | object | array | vector => some .reference
  | genericInstance | valueType | typeVariable | methodVariable | typedReference => none

end ElementType

/-- the bytes start with a return type of the closed set, which is of this category -/
inductive ReturnType : List UInt8 → ReturnCategory → Prop where
  | element (t : ElementType) (c : ReturnCategory) (rest : List UInt8) (h : t.category? = some c) :
      ReturnType (t.code :: rest) c
  | classInstance (rest : List UInt8) :
      ReturnType (ElementType.genericInstance.code :: ElementType.classType.code :: rest) .reference

/-- the bytes start with a generic instance of something that is neither a class nor a value type -/
def InstanceOfOther (bytes : List UInt8) : Prop :=
  ∃ b rest, bytes = ElementType.genericInstance.code :: b :: rest ∧ b ≠ ElementType.classType.code ∧
    b ≠ ElementType.valueType.code

/-- the return type, behind its modifiers -/
def MethodSignature.Parts.returnType (p : MethodSignature.Parts) : List UInt8 := p.element :: p.rest

end CilPatch
