/-
How a table stream is laid out (II.24.2.6), from its rows.

A row is a list of numbers, one for each column. `Table.columns` lists the columns of each table and `Column.width`
says how many bytes a column takes, which depends on the heap flags and on how many rows the tables have that it points
into. `TableStream.bytes` is the whole stream, and `TableStream.ownedMethods` says which methods a type has.
-/
import CilPatch.Metadata.Layout

namespace CilPatch.Metadata

/-- what a column holds: a number of fixed size, or an index into a heap, a table or one of several tables -/
inductive Column where
  | fixed (bytes : Nat)
  | string
  | guid
  | blob
  | index (table : Nat)
  /-- two bits of the number tell the table -/
  | coded (tables : List Nat)
  deriving DecidableEq, Repr

namespace Column

/-- how many bytes the column takes -/
def width (heapSizes : Nat) (rows : Nat → Nat) : Column → Nat
  | fixed bytes => bytes
  | string => if heapSizes.testBit 0 then 4 else 2
  | guid => if heapSizes.testBit 1 then 4 else 2
  | blob => if heapSizes.testBit 2 then 4 else 2
  | index table => if rows table < 65536 then 2 else 4
  | coded tables => if ∀ table ∈ tables, rows table < 16384 then 2 else 4

/-- an index into the modules, module references, assembly references or type references -/
def resolutionScope : Column := .coded [0x00, 0x1A, 0x23, 0x01]

/-- an index into the types, type references or type specifications -/
def typeDefOrRef : Column := .coded [0x02, 0x01, 0x1B]

end Column

/-- the columns of a table, in order (II.22) -/
def Table.columns : Table → List Column
  | .module => [.fixed 2, .string, .guid, .guid, .guid]
  | .typeRef => [.resolutionScope, .string, .string]
  | .typeDef => [.fixed 4, .string, .string, .typeDefOrRef, .index 0x04, .index 0x06]
  | .fieldPtr => [.index 0x04]
  | .field => [.fixed 2, .string, .blob]
  | .methodPtr => [.index 0x06]
  | .methodDef => [.fixed 4, .fixed 2, .fixed 2, .string, .blob, .index 0x08]

/-- one number for each column of a table -/
abbrev Row := List Nat

namespace Row

/-- the numbers of a row, each in the width of its column -/
def bytes (widths : List Nat) (row : Row) : List UInt8 := (List.zipWith Bytes.toLE widths row).flatten

/-- the row has a number for every column, and it fits -/
def Fits (widths : List Nat) (row : Row) : Prop :=
  row.length = widths.length ∧ ∀ p ∈ widths.zip row, p.2 < Bytes.limit p.1

instance (widths : List Nat) (row : Row) : Decidable (row.Fits widths) := inferInstanceAs (Decidable (_ ∧ _))

end Row

/-- what a table stream is made of -/
structure TableStream where
  heapSizes : Nat
  /-- a bit for every table whose row count is listed -/
  present : Nat
  /-- one count for each of the 64 tables -/
  rowCounts : List Nat
  rows : Table → List Row
  /-- six bytes before the heap flags and one behind them -/
  version : List UInt8
  reserved : UInt8
  /-- the eight bytes behind the mask of present tables -/
  sorted : List UInt8
  /-- the four bytes that a heap flag announces -/
  extra : List UInt8

namespace TableStream

/-- the number of rows of a table, by the number of the table -/
def count (s : TableStream) (table : Nat) : Nat := s.rowCounts.getD table 0

/-- the widths of the columns of a table -/
def widths (s : TableStream) (t : Table) : List Nat := t.columns.map (Column.width s.heapSizes s.count)

/-- the parts have their sizes, counts are listed for present tables only, and every row fits its columns -/
structure WellFormed (s : TableStream) : Prop where
  heapSizes : s.heapSizes < Bytes.limit 1
  present : s.present < Bytes.limit 8
  count : s.rowCounts.length = 64
  counts : ∀ n ∈ s.rowCounts, n < Bytes.limit 4
  absent : ∀ table, s.present.testBit table = false → s.count table = 0
  rowCount : ∀ t : Table, (s.rows t).length = s.count t.number
  fit : ∀ t : Table, ∀ row ∈ s.rows t, row.Fits (s.widths t)
  version : s.version.length = 6
  sorted : s.sorted.length = 8
  extra : s.extra.length = if s.heapSizes.testBit 6 then 4 else 0

/-- the 24 bytes before the row counts -/
def header (s : TableStream) : List UInt8 :=
  s.version ++ [UInt8.ofNat s.heapSizes, s.reserved] ++ Bytes.toLE 8 s.present ++ s.sorted

/-- the row counts of the present tables, ascending -/
def countBytes (s : TableStream) : List UInt8 :=
  ((List.range 64).filter s.present.testBit).flatMap fun table => Bytes.toLE 4 (s.count table)

/-- the rows of one table -/
def tableBytes (s : TableStream) (t : Table) : List UInt8 := (s.rows t).flatMap (Row.bytes (s.widths t))

/-- the whole stream up to the end of the method table -/
def bytes (s : TableStream) : List UInt8 :=
  s.header ++ s.countBytes ++ s.extra ++ Table.all.flatMap s.tableBytes

/-! ## Method lists -/

/-- the rows that method lists count through: the targets of the method pointers, or all methods when there are none -/
def methodList (s : TableStream) : List Nat :=
  if s.rows .methodPtr = [] then List.range' 1 (s.rows .methodDef).length
  else (s.rows .methodPtr).map fun row => row.getD 0 0

/-- how much of the method list lies before type `i`, whose last column counts from 1 -/
def methodsBefore (s : TableStream) (i : Nat) : Nat :=
  match (s.rows .typeDef)[i]? with
  | none => s.methodList.length
  | some row => min (row.getD 5 0 - 1) s.methodList.length

/-- the rows of the methods of type `i`, which end where the next type begins -/
def ownedMethods (s : TableStream) (i : Nat) : List Nat :=
  (s.methodList.take (s.methodsBefore (i + 1))).drop (s.methodsBefore i)

end TableStream

end CilPatch.Metadata
