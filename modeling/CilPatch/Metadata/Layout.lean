/-
Layout of the table stream (II.24.2.6).

How wide a column is depends on the heap flags and on the row counts of the tables its indexes point into, so every
offset in the stream follows from the header alone. `Columns.ofCounts` gives the widths, `Layout.rowSize` and
`Layout.offset` the places of the rows, and `Layout.read` reads the header and checks that all tables up to the
methods fit into the stream.
-/
import CilPatch.Bytes
import CilPatch.Metadata.Error

namespace CilPatch.Metadata

/-- the tables that are decoded or skipped over, in stream order -/
inductive Table where
  | module
  | typeRef
  | typeDef
  | fieldPtr
  | field
  | methodPtr
  | methodDef
  deriving DecidableEq, Repr

namespace Table

/-- the number of the table, which is its place in the stream too -/
def number : Table → Nat
  | module => 0
  | typeRef => 1
  | typeDef => 2
  | fieldPtr => 3
  | field => 4
  | methodPtr => 5
  | methodDef => 6

/-- all of them, in stream order -/
def all : List Table := [module, typeRef, typeDef, fieldPtr, field, methodPtr, methodDef]

/-- those that stand before the table in the stream -/
def before (t : Table) : List Table := all.take t.number

end Table

/-! ## Widths -/

/-- the widths, in bytes, of all kinds of index column -/
structure Columns where
  string : Nat
  guid : Nat
  blob : Nat
  field : Nat
  methodDef : Nat
  param : Nat
  resolutionScope : Nat
  typeDefOrRef : Nat
  deriving DecidableEq, Repr

namespace Columns

/-- an index column is wide or narrow -/
def width (wide : Bool) : Nat := if wide then 4 else 2

/-- an index into one table -/
def simpleIndex (rows : Nat → Nat) (table : Nat) : Nat := width (0x10000 ≤ rows table)

/-- an index into one of several tables, two bits of which tell the table -/
def codedIndex (rows : Nat → Nat) (tables : List Nat) : Nat := width (tables.any fun t => 0x4000 ≤ rows t)

/-- the widths that follow from the heap flags and the row counts -/
def ofCounts (heapSizes : Nat) (rows : Nat → Nat) : Columns where
  string := width (heapSizes.testBit 0)
  guid := width (heapSizes.testBit 1)
  blob := width (heapSizes.testBit 2)
  field := simpleIndex rows 0x04
  methodDef := simpleIndex rows 0x06
  param := simpleIndex rows 0x08
  resolutionScope := codedIndex rows [0x00, 0x1A, 0x23, 0x01]
  typeDefOrRef := codedIndex rows [0x02, 0x01, 0x1B]

/-- size of a row of the table -/
def rowSize (c : Columns) : Table → Nat
  | .module => 2 + c.string + 3 * c.guid
  | .typeRef => c.resolutionScope + 2 * c.string
  | .typeDef => 4 + 2 * c.string + c.typeDefOrRef + c.field + c.methodDef
  | .fieldPtr => c.field
  | .field => 2 + c.string + c.blob
  | .methodPtr => c.methodDef
  | .methodDef => 8 + c.string + c.blob + c.param

end Columns

/-! ## Offsets -/

/-- what the header of a table stream says -/
structure Layout where
  heapSizes : Nat
  /-- one count for each of the 64 tables, zero for a table that is absent -/
  rowCounts : List Nat
  /-- where the first table starts -/
  start : Nat
  deriving DecidableEq, Repr

namespace Layout

/-- the number of rows of a table, by the number of the table -/
def count (l : Layout) (table : Nat) : Nat := l.rowCounts.getD table 0

def rows (l : Layout) (t : Table) : Nat := l.count t.number

def columns (l : Layout) : Columns := Columns.ofCounts l.heapSizes l.count

/-- how many bytes the tables take together -/
def sizeOf (l : Layout) (ts : List Table) : Nat :=
  ts.foldr (fun t size => l.rows t * l.columns.rowSize t + size) 0

/-- where a table starts -/
def offset (l : Layout) (t : Table) : Nat := l.start + l.sizeOf t.before

/-- where the last of the tables ends -/
def stop (l : Layout) : Nat := l.start + l.sizeOf Table.all

/-- the row counts of the given tables, which stand from `pos` on for those that are present, and where they end -/
def readCounts? (stream : Bytes) (present : Nat) : (tables : List Nat) → (pos : Nat) → Option (List Nat × Nat)
  | [], pos => some ([], pos)
  | table :: tables, pos =>
    if present.testBit table then do
      let n ← stream.u32? pos
      let (counts, stop) ← readCounts? stream present tables (pos + 4)
      some (n :: counts, stop)
    else do
      let (counts, stop) ← readCounts? stream present tables pos
      some (0 :: counts, stop)

/-- the header of a table stream that is long enough for its tables -/
def read (stream : Bytes) : Except ParseError Layout :=
  match stream.u8? 6, stream.u64? 8 with
  | some heapSizes, some present =>
    match readCounts? stream present (List.range 64) 24 with
    | none => .error .truncatedRowCounts
    | some (counts, pos) =>
      -- bit 6 of the flags announces four more bytes before the first table
      let l : Layout := ⟨heapSizes, counts, if heapSizes.testBit 6 then pos + 4 else pos⟩
      if l.stop ≤ stream.size then .ok l else .error (.truncatedTables l.stop stream.size)
  | _, _ => .error .truncatedTableHeader

end Layout

end CilPatch.Metadata
