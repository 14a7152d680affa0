/-
Why a patch is refused, how each reason is worded and which number stands for it.
-/
import CilPatch.Body.Default
import CilPatch.Body.Locate

namespace CilPatch

inductive PatchError where
  | typeNotFound (type : Text)
  | methodNotFound (type method : Text)
  | notLocated (cause : LocateError)
  | unsupportedReturn (method : MethodDescriptor)
  | bodyTooLarge (method : MethodDescriptor) (encodedSize available : Nat)
  | notOpened (cause : OpenError)
  | io (path reason : Text)
  deriving DecidableEq, Repr

namespace PatchError

def message : PatchError → Text
  | typeNotFound type => Text.ascii "Type not found: " ++ type
  | methodNotFound type method => Text.ascii "Method not found: " ++ method ++ Text.ascii " on type: " ++ type
  | notLocated cause => cause.message
  | unsupportedReturn m => Text.ascii "Unsupported return type for method: " ++ m.text
  | bodyTooLarge m encodedSize available =>
    Text.ascii "Replacement body needs: " ++ Text.decimal encodedSize ++ Text.ascii " bytes but only: "
      ++ Text.decimal available ++ Text.ascii " are available for method: " ++ m.text
  | notOpened cause => cause.message
  | io path reason => Text.ascii "Failed to write output: " ++ path ++ Text.ascii ": " ++ reason

/-- the error that an encoding failure is for a method -/
def ofEncode (method : MethodDescriptor) : EncodeError → PatchError
  | .unsupportedReturn _ => unsupportedReturn method
  | .bodyTooLarge codeSize => bodyTooLarge method codeSize maxTinyCode

end PatchError

end CilPatch
