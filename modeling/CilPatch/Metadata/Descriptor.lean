/-
Method descriptors: what identifies a method and tells how to replace its body.
-/
import CilPatch.Metadata.Rows

namespace CilPatch

open Metadata (MethodRow TypeEntry)

structure MethodDescriptor where
  typeName : Text
  name : Text
  token : Nat
  rva : Nat
  flags : Nat
  isStatic : Bool
  paramCount : Nat
  genericArity : Nat
  convention : CallingConvention
  returnCategory : ReturnCategory
  deriving DecidableEq, Repr

namespace MethodDescriptor

/-- written `{type}::{name} (token: .., rva: .., static|instance, params: .., returns: ..)` -/
def text (m : MethodDescriptor) : Text :=
  m.typeName ++ Text.ascii "::" ++ m.name ++ Text.ascii " (token: " ++ Text.hexPadded 10 m.token
    ++ Text.ascii ", rva: " ++ Text.hex m.rva ++ Text.ascii ", "
    ++ Text.ascii (if m.isStatic then "static" else "instance") ++ Text.ascii ", params: "
    ++ Text.decimal m.paramCount ++ Text.ascii ", returns: " ++ m.returnCategory.text ++ Text.ascii ")"

/-- the token of a method row: the number of the method table above the row -/
def methodToken (row : Nat) : Nat := 0x06000000 ||| row

/-- the method attribute that marks a static method -/
def isStaticFlag (flags : Nat) : Bool := flags.testBit 4

/-- the descriptor of a method row owned by a type with this full name; without a signature nothing can be returned -/
def ofRow (typeName : Text) (m : MethodRow) : MethodDescriptor :=
  let base : MethodDescriptor :=
    ⟨typeName, m.name, methodToken m.row, m.rva, m.flags, isStaticFlag m.flags, 0, 0, .managed, .unsupported⟩
  match m.signature with
  | none => base
  | some s =>
    { base with
      paramCount := s.paramCount, genericArity := s.genericArity, convention := s.convention,
      returnCategory := s.returnCategory }

end MethodDescriptor

end CilPatch
