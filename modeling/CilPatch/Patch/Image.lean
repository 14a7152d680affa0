/-
Replacing a method body in place.

`Module.plan` makes all the checks and says what is to be written where; it never looks at the buffer that is patched.
`Replacement.apply` then writes the new body and clears the rest of the old one, which cannot fail. `Module.patch` does
both on a buffer beside the module, and `patchBytes` opens a buffer and patches it.
-/
import CilPatch.Patch.Error

namespace CilPatch

/-- what a patch did -/
structure PatchSummary where
  method : MethodDescriptor
  fileOffset : Nat
  /-- the header of the body that was replaced -/
  replaced : BodyHeader
  /-- the bytes of the replaced body, all of which were overwritten -/
  span : Nat
  /-- the bytes of the new body at the start of the span -/
  encodedSize : Nat
  deriving DecidableEq, Repr

/-- a patch that passed all checks -/
structure Replacement where
  summary : PatchSummary
  body : List UInt8
  deriving DecidableEq, Repr

namespace Replacement

/-- what the span holds afterwards: the new body, then zeros -/
def content (r : Replacement) : List UInt8 := r.body ++ List.replicate (r.summary.span - r.body.length) 0

/-- the buffer with the body replaced -/
def apply (r : Replacement) (out : Bytes) : Bytes := out.write r.summary.fileOffset r.content

end Replacement

namespace Module

/-- the replacement of a located body; the new one must fit into the span of the old one -/
def replace (d : MethodDescriptor) (located : LocatedBody) : Except PatchError Replacement :=
  match d.returnCategory.defaultBody with
  | .error e => .error (.ofEncode d e)
  | .ok body =>
    if located.header.span < body.length then .error (.bodyTooLarge d body.length located.header.span)
    else .ok ⟨⟨d, located.fileOffset, located.header, located.header.span, body.length⟩, body⟩

/-- how to replace the first method with this name in the first type with that full name -/
def plan (m : Module) (type method : Text) : Except PatchError Replacement :=
  match m.findType? type with
  | none => .error (.typeNotFound type)
  | some t =>
    match m.findMethod? t method with
    | none => .error (.methodNotFound type method)
    | some d =>
      match m.locate d with
      | .error e => .error (.notLocated e)
      | .ok located => replace d located

/-- a buffer of another size than the module -/
def sizeMismatch (m : Module) (out : Bytes) : PatchError :=
  .io m.origin (Text.ascii "output buffer holds " ++ Text.decimal out.size ++ Text.ascii " bytes but the module has "
    ++ Text.decimal m.bytes.size)

/-- patches a buffer that has the size of the module; a failure leaves it as it was -/
def patch (m : Module) (type method : Text) (out : Bytes) : Except PatchError PatchSummary × Bytes :=
  if out.size ≠ m.bytes.size then (.error (m.sizeMismatch out), out)
  else
    match m.plan type method with
    | .error e => (.error e, out)
    | .ok r => (.ok r.summary, r.apply out)

end Module

/-- patches a module held in a buffer; a failure leaves it as it was -/
def patchBytes (bytes : Bytes) (type method : Text) : Except PatchError PatchSummary × Bytes :=
  match Module.ofBytes bytes Module.inMemory with
  | .error e => (.error (.notOpened e), bytes)
  | .ok m => m.patch type method bytes

end CilPatch
