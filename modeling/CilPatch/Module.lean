/-
Opened modules and lookup by name.

A module is a file whose headers and metadata could be read. Types are found by their full name and methods by their
name within a type; of several that fit, the first one declared is meant.
-/
import CilPatch.Metadata.Reader

namespace CilPatch

open Metadata (TypeEntry)

/-- a file that could not be opened as a module -/
structure OpenError where
  path : Text
  reason : Text
  deriving DecidableEq, Repr

namespace OpenError

def message (e : OpenError) : Text := Text.ascii "Failed to open module: " ++ e.path ++ Text.ascii ": " ++ e.reason

end OpenError

structure Module where
  bytes : Bytes
  /-- where the bytes came from -/
  origin : Text
  image : Pe.Image
  metadata : Metadata
  deriving DecidableEq, Repr

namespace Module

/-- the origin of a module that was not read from a file -/
def inMemory : Text := Text.ascii "<memory>"

/-- opens the bytes as a module -/
def ofBytes (bytes : Bytes) (origin : Text) : Except OpenError Module :=
  match Pe.Image.parse bytes with
  | .error e => .error ⟨origin, e.message⟩
  | .ok image =>
    match Metadata.parse bytes image.sections image.cliHeader.rva with
    | .error e => .error ⟨origin, e.message⟩
    | .ok metadata => .ok ⟨bytes, origin, image, metadata⟩

/-- the first type with this full name -/
def findType? (m : Module) (fullName : Text) : Option TypeEntry := m.metadata.types.find? fun t => t.fullName = fullName

/-- the first method of the type with this name; rows that do not exist are passed over -/
def findMethod? (m : Module) (t : TypeEntry) (name : Text) : Option MethodDescriptor :=
  (t.methodRows.findSome? fun row => (m.metadata.method? row).filter fun r => r.name = name).map
    (MethodDescriptor.ofRow t.fullName)

/-- all methods of the type, in declaration order; rows that do not exist are passed over -/
def methods (m : Module) (t : TypeEntry) : List MethodDescriptor :=
  t.methodRows.filterMap fun row => (m.metadata.method? row).map (MethodDescriptor.ofRow t.fullName)

end Module

end CilPatch
