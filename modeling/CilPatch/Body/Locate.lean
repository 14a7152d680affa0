/-
Where the body of a method lies in the file.

A method without an address has no body. Otherwise its address is mapped through the section table, and header and code
must lie inside the file. Bodies that are followed by exception clauses are refused.
-/
import CilPatch.Body.Header
import CilPatch.Module

namespace CilPatch

/-- a body found in the file -/
structure LocatedBody where
  fileOffset : Nat
  header : BodyHeader
  deriving DecidableEq, Repr

/-- why a body cannot be replaced in place -/
inductive LocateError where
  | noBody (method : MethodDescriptor)
  | unmapped (method : MethodDescriptor)
  | unsupportedBody (method : MethodDescriptor) (reason : Text) (hasExceptionHandlers : Bool)
  deriving DecidableEq, Repr

namespace LocateError

def message : LocateError → Text
  | noBody m => Text.ascii "Method has no body: " ++ m.text
  | unmapped m => Text.ascii "Method RVA does not map into the file: " ++ m.text
  | unsupportedBody m reason hasExceptionHandlers =>
    Text.ascii (if hasExceptionHandlers then "Unsupported body (has exception handlers): " else "Unsupported body: ")
      ++ reason ++ Text.ascii " for method: " ++ m.text

/-- a body is followed by exception clauses -/
def extraSections : Text := Text.ascii "body is followed by extra data sections"

/-- a body does not fit into the file -/
def pastEnd (offset : Nat) (h : BodyHeader) : Text :=
  Text.ascii "body at " ++ Text.hex offset ++ Text.ascii " with header " ++ Text.hex h.headerSize
    ++ Text.ascii " and code " ++ Text.hex h.codeSize ++ Text.ascii " extends past the end of the file"

end LocateError

namespace Module

/-- the offset of the method's body, which must lie inside the file -/
def bodyOffset? (m : Module) (rva : Nat) : Option Nat := (m.image.fileOffset? rva).filter (· < m.bytes.size)

/-- the body of a method -/
def locate (m : Module) (d : MethodDescriptor) : Except LocateError LocatedBody :=
  if d.rva = 0 then .error (.noBody d)
  else
    match m.bodyOffset? d.rva with
    | none => .error (.unmapped d)
    | some offset =>
      match BodyHeader.readAt m.bytes offset with
      | .error e => .error (.unsupportedBody d e.message false)
      | .ok h =>
        if h.moreSections then .error (.unsupportedBody d LocateError.extraSections true)
        else if m.bytes.size < offset + h.headerSize + h.codeSize then
          .error (.unsupportedBody d (LocateError.pastEnd offset h) false)
        else .ok ⟨offset, h⟩

end Module

end CilPatch
