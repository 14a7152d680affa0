/-
The reader of metadata with its own steps checked.

Past the size check of the table stream, rows are read without asking whether they are there, and offsets and row
numbers are counted in machine words without asking whether they fit. `Checked.parse` is the same reader on machine
words: offsets and sizes have eight bytes, row numbers and list positions four. A step that nothing has made sure of ends
with a `Fault` when it goes wrong, and a fault is not one of the causes for which metadata is refused.
-/
import CilPatch.Metadata.Cells

namespace CilPatch.Metadata.Checked

/-- what can go wrong in a step that is not guarded -/
inductive Fault where
  /-- a value is taken out of a read that ran past the end -/
  | absent
  /-- an entry is taken that the list does not have -/
  | outOfRange
  /-- a number does not fit into its word -/
  | wrapped
  /-- a number is clamped to bounds in the wrong order -/
  | crossedBounds
  deriving DecidableEq, Repr

/-- how checked reading fails: with a refusal, as the reader does, or with a fault -/
inductive Failure where
  | refused (cause : ParseError)
  | faulted (fault : Fault)
  deriving DecidableEq, Repr

/-! ## Steps -/

/-- the number, in a word of so many bytes -/
def word (bytes n : Nat) : Except Failure Nat := if n < Bytes.limit bytes then .ok n else .error (.faulted .wrapped)

/-- the value, taken without a look whether there is one -/
def demand {α : Type} (fault : Fault) : Option α → Except Failure α
  | some a => .ok a
  | none => .error (.faulted fault)

/-- the number, brought between two bounds -/
def clamp (value low high : Nat) : Except Failure Nat :=
  if low ≤ high then .ok (max low (min value high)) else .error (.faulted .crossedBounds)

/-! ## Tables -/

/-- where the tables start, one behind the other from `pos` on, and where the last one ends -/
def tableOffsets (l : Layout) : (tables : List Table) → (pos : Nat) → Except Failure (List Nat × Nat)
  | [], pos => return ([], pos)
  | t :: tables, pos => do
    let size ← word 8 (l.rows t * l.columns.rowSize t)
    let next ← word 8 (pos + size)
    let (offsets, stop) ← tableOffsets l tables next
    return (pos :: offsets, stop)

/-- the header of a table stream that is long enough for its tables, and where these start -/
def readLayout (stream : Bytes) : Except Failure (Layout × List Nat) :=
  match stream.u8? 6, stream.u64? 8 with
  | some heapSizes, some present =>
    match Layout.readCounts? stream present (List.range 64) 24 with
    | none => .error (.refused .truncatedRowCounts)
    | some (counts, pos) => do
      let start ← word 8 (if heapSizes.testBit 6 then pos + 4 else pos)
      let l : Layout := ⟨heapSizes, counts, start⟩
      let (offsets, stop) ← tableOffsets l Table.all start
      if stop ≤ stream.size then return (l, offsets) else .error (.refused (.truncatedTables stop stream.size))
  | _, _ => .error (.refused .truncatedTableHeader)

/-- where row `i` starts of a table at `base` -/
def rowOffset (base rowSize i : Nat) : Except Failure Nat := do
  let before ← word 8 (i * rowSize)
  word 8 (base + before)

/-! ## Rows -/

/-- row `i` of the method table at `base`; its flags are read without a guard -/
def readMethod (h : Heaps) (c : Columns) (base i : Nat) : Except Failure MethodRow := do
  let off ← rowOffset base (c.rowSize .methodDef) i
  let nameOffset ← word 8 (off + 8)
  let blobOffset ← word 8 (off + 8 + c.string)
  let row ← word 4 (i + 1)
  match h.string? c nameOffset, h.tables.index? c.blob blobOffset with
  | some name, some blob =>
    let rva ← demand .absent (h.tables.u32? off)
    let implFlags ← demand .absent (h.tables.u16? (← word 8 (off + 4)))
    let flags ← demand .absent (h.tables.u16? (← word 8 (off + 6)))
    return ⟨row, rva, implFlags, flags, name, h.signature? blob⟩
  | _, _ => .error (.refused (.badMethodRow row))

/-- row `i` of the table of method pointers at `base` -/
def readPtr (h : Heaps) (c : Columns) (base i : Nat) : Except Failure Nat := do
  let off ← rowOffset base (c.rowSize .methodPtr) i
  demand .absent (h.tables.index? c.methodDef off)

/-- a row that runs past the end of its stream is a fault -/
example : readPtr ⟨#[7], #[], #[]⟩ (Columns.ofCounts 0 fun _ => 0) 0 0 = .error (.faulted .absent) := rfl

/-- the first method list position of type `i` of the type table at `base` -/
def listStart (h : Heaps) (l : Layout) (base i : Nat) : Except Failure Nat := do
  let behind ← word 4 (l.listLength + 1)
  if l.rows .typeDef ≤ i then return behind
  else
    let off ← rowOffset base (l.columns.rowSize .typeDef) i
    let column ← word 8 (off + Layout.methodListColumn l.columns)
    let value ← demand .absent (h.tables.index? l.columns.methodDef column)
    clamp value 1 behind

/-- the method row at a list position, which counts from 1 -/
def rowAt (ptrs : List Nat) (position : Nat) : Except Failure Nat :=
  if ptrs = [] then return position
  else if position = 0 then .error (.faulted .wrapped)
  else demand .outOfRange ptrs[position - 1]?

/-- row `i` of the type table at `base` -/
def readType (h : Heaps) (l : Layout) (ptrs : List Nat) (base i : Nat) : Except Failure TypeEntry := do
  let off ← rowOffset base (l.columns.rowSize .typeDef) i
  let nameOffset ← word 8 (off + 4)
  let spaceOffset ← word 8 (off + 4 + l.columns.string)
  let row ← word 4 (i + 1)
  match h.string? l.columns nameOffset, h.string? l.columns spaceOffset with
  | some name, some space =>
    let first ← listStart h l base i
    let stop ← listStart h l base row
    let methodRows ← (List.range' first (max first stop - first)).mapM (rowAt ptrs)
    return ⟨row, space, name, methodRows⟩
  | _, _ => .error (.refused (.badTypeRow row))

/-! ## Metadata -/

/-- the tables of a root, given its streams -/
def readTables (version streamName : Text) (h : Heaps) : Except Failure Metadata := do
  let (l, offsets) ← readLayout h.tables
  let base (t : Table) : Nat := offsets.getD t.number 0
  let methods ← (List.range (l.rows .methodDef)).mapM (readMethod h l.columns (base .methodDef))
  let ptrs ← (List.range (l.rows .methodPtr)).mapM (readPtr h l.columns (base .methodPtr))
  let types ← (List.range (l.rows .typeDef)).mapM (readType h l ptrs (base .typeDef))
  return ⟨version, streamName, l.heapSizes, l.rowCounts, types.toArray, methods.toArray⟩

/-- the metadata of a file with these sections and this address of the CLI header -/
def parse (file : Bytes) (sections : List Pe.Section) (cliRva : Nat) : Except Failure Metadata := do
  let root ← (locateRoot file sections cliRva).mapError .refused
  let (name, heaps) ← (Root.readHeaps root).mapError .refused
  readTables (Root.version root) name heaps

end CilPatch.Metadata.Checked
