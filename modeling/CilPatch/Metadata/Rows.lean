/-
Rows of the method and type tables, with their names and signatures resolved.

A type owns the methods from the position in its method list column up to that of the next type. Positions are clamped
to the method list, and in an uncompressed stream they go through the table of method pointers.
-/
import CilPatch.Metadata.Layout
import CilPatch.Signature.MethodSignature

namespace CilPatch.Metadata

/-- one row of the method table -/
structure MethodRow where
  /-- counted from 1 -/
  row : Nat
  rva : Nat
  implFlags : Nat
  flags : Nat
  name : Text
  /-- absent when the blob is missing or malformed -/
  signature : Option MethodSignature
  deriving DecidableEq, Repr

/-- one row of the type table -/
structure TypeEntry where
  /-- counted from 1 -/
  row : Nat
  space : Text
  name : Text
  /-- the rows of the methods it owns, in declaration order; they need not exist -/
  methodRows : List Nat
  deriving DecidableEq, Repr

namespace TypeEntry

/-- the name behind its namespace and a dot, or the bare name in the global namespace -/
def fullName (t : TypeEntry) : Text := if t.space = [] then t.name else t.space ++ Text.ascii "." ++ t.name

end TypeEntry

/-- the streams that the rows refer to -/
structure Heaps where
  tables : Bytes
  strings : Bytes
  blobs : Bytes
  deriving DecidableEq, Repr

namespace Heaps

/-- the string whose index stands in the column at `off` -/
def string? (h : Heaps) (c : Columns) (off : Nat) : Option Text := do
  let index ← h.tables.index? c.string off
  h.strings.cstring? index

/-- the signature in the heap entry at `index` -/
def signature? (h : Heaps) (index : Nat) : Option MethodSignature := do
  let blob ← Blob.entry? h.blobs index
  MethodSignature.decode? blob

/-! ## Methods -/

/-- the method row at `off`, which is row `i` counted from 0 -/
def readMethod (h : Heaps) (c : Columns) (i off : Nat) : Except ParseError MethodRow :=
  match h.string? c (off + 8), h.tables.index? c.blob (off + 8 + c.string) with
  | some name, some blob =>
    .ok ⟨i + 1, h.tables.leAt 4 off, h.tables.leAt 2 (off + 4), h.tables.leAt 2 (off + 6), name, h.signature? blob⟩
  | _, _ => .error (.badMethodRow (i + 1))

/-- all rows of the method table -/
def readMethods (h : Heaps) (l : Layout) : Except ParseError (List MethodRow) :=
  let c := l.columns
  let base := l.offset .methodDef
  (List.range (l.rows .methodDef)).mapM fun i => h.readMethod c i (base + i * c.rowSize .methodDef)

/-! ## Method lists -/

/-- the table of method pointers, which is empty in a compressed stream -/
def methodPtrs (h : Heaps) (l : Layout) : Array Nat :=
  let c := l.columns
  let base := l.offset .methodPtr
  ((List.range (l.rows .methodPtr)).map fun i => h.tables.leAt c.methodDef (base + i * c.rowSize .methodPtr)).toArray

end Heaps

namespace Layout

/-- how many positions the method list has -/
def listLength (l : Layout) : Nat := if l.rows .methodPtr ≠ 0 then l.rows .methodPtr else l.rows .methodDef

/-- where the method list column stands in a type row -/
def methodListColumn (c : Columns) : Nat := 4 + 2 * c.string + c.typeDefOrRef + c.field

end Layout

/-- a position of a method list of the given length, or the one behind its end -/
def clampPosition (length value : Nat) : Nat := max 1 (min value (length + 1))

namespace Heaps

/-- the first method list position of type `i`, counted from 0; behind the last type, the one behind the list -/
def listStart (h : Heaps) (l : Layout) (c : Columns) (base i : Nat) : Nat :=
  if l.rows .typeDef ≤ i then l.listLength + 1
  else
    clampPosition l.listLength
      (h.tables.leAt c.methodDef (base + i * c.rowSize .typeDef + Layout.methodListColumn c))

/-- the method row at a list position -/
def rowAt (ptrs : Array Nat) (position : Nat) : Nat := if ptrs.isEmpty then position else ptrs.getD (position - 1) 0

/-- the list positions of type `i`: from its own start up to the start of the next type -/
def positions (h : Heaps) (l : Layout) (c : Columns) (base i : Nat) : List Nat :=
  let first := h.listStart l c base i
  List.range' first (h.listStart l c base (i + 1) - first)

/-! ## Types -/

/-- row `i` of the type table, counted from 0; the table starts at `base` -/
def readType (h : Heaps) (l : Layout) (c : Columns) (ptrs : Array Nat) (base i : Nat) : Except ParseError TypeEntry :=
  let off := base + i * c.rowSize .typeDef
  match h.string? c (off + 4), h.string? c (off + 4 + c.string) with
  | some name, some space => .ok ⟨i + 1, space, name, (h.positions l c base i).map (rowAt ptrs)⟩
  | _, _ => .error (.badTypeRow (i + 1))

/-- all rows of the type table -/
def readTypes (h : Heaps) (l : Layout) : Except ParseError (List TypeEntry) :=
  let c := l.columns
  let base := l.offset .typeDef
  let ptrs := h.methodPtrs l
  (List.range (l.rows .typeDef)).mapM (h.readType l c ptrs base)

end Heaps

end CilPatch.Metadata
