/-
Bodies that return the default value of a return category.

`ReturnCategory.defaultCode` is the code: it puts a zero or a null on the evaluation stack, converts it to the kind the
category needs and returns. `wrapTiny` puts a tiny header in front of a code sequence, which fits up to 63 bytes.
-/
import CilPatch.Body.Opcode
import CilPatch.Signature.ReturnCategory

namespace CilPatch

/-! ## Code and body -/

namespace ReturnCategory

/-- the instructions that return the default value: none for a category that has no default -/
def defaultOpcodes : ReturnCategory → List Opcode
  | void => [.ret]
  | int32 => [.ldcI4Zero, .ret]
  | int64 => [.ldcI4Zero, .convI8, .ret]
  | nativeInt => [.ldcI4Zero, .convI, .ret]
  | float32 => [.ldcI4Zero, .convR4, .ret]
  | float64 => [.ldcI4Zero, .convR8, .ret]
  | reference => [.ldnull, .ret]
  | unsupported => []
  | other _ => []

/-- the code that returns the default value -/
def defaultCode (c : ReturnCategory) : List UInt8 := c.defaultOpcodes.map Opcode.byte

end ReturnCategory

/-- why a body cannot be made -/
inductive EncodeError where
  | unsupportedReturn (category : ReturnCategory)
  | bodyTooLarge (codeSize : Nat)
  deriving DecidableEq, Repr

/-- the most code bytes under a tiny header -/
def maxTinyCode : Nat := 63

namespace EncodeError

def message : EncodeError → Text
  | unsupportedReturn category => Text.ascii "No default body for return category: " ++ category.text
  | bodyTooLarge codeSize =>
    Text.ascii "Body of " ++ Text.decimal codeSize ++ Text.ascii " bytes does not fit a tiny header (max: "
      ++ Text.decimal maxTinyCode ++ Text.ascii ")"

end EncodeError

/-- the code behind a tiny header -/
def wrapTiny (code : List UInt8) : Except EncodeError (List UInt8) :=
  if maxTinyCode < code.length then .error (.bodyTooLarge code.length)
  else .ok (UInt8.ofNat (code.length * 4 + 2) :: code)

namespace ReturnCategory

/-- the whole body that returns the default value -/
def defaultBody (c : ReturnCategory) : Except EncodeError (List UInt8) :=
  if c.defaultCode = [] then .error (.unsupportedReturn c) else wrapTiny c.defaultCode

end ReturnCategory

end CilPatch
