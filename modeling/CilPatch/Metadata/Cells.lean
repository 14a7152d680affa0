/-
The numbers in the tables of a root, by table, row and column.

`Root.readHeaps` finds the streams of a root that the tables are read from. In a table stream that was accepted with a
layout, `Layout.cell?` is the number in a column of a row (II.22), and there is none outside of the tables.

`SharesMethods` says how types share the method list: each has a run of its positions.
-/
import Mathlib.Tactic
import CilPatch.Metadata.Reader
import CilPatch.Metadata.TableStream

namespace CilPatch.Metadata

/-- the streams that the tables of a root are read from, and the name of the table stream -/
def Root.readHeaps (root : Bytes) : Except ParseError (Text × Heaps) :=
  if root.u32? 0 ≠ some 0x424A5342 then .error .badRootSignature
  else
    match readDirectory root with
    | .error e => .error e
    | .ok streams =>
      match find? streams tableStreamNames with
      | none => .error .missingTableStream
      | some tables =>
        match find? streams [Text.ascii "#Strings"], find? streams [Text.ascii "#Blob"] with
        | some strings, some blobs =>
          .ok (lastNameAt streams tables, ⟨tables.data root, strings.data root, blobs.data root⟩)
        | _, _ => .error .missingHeap

namespace Layout

/-- the widths of the columns of a table -/
def widths (l : Layout) (t : Table) : List Nat := t.columns.map (Column.width l.heapSizes l.count)

/-- the number in column `j` of row `i` of a table, both counted from 0 -/
def cell? (l : Layout) (stream : Bytes) (t : Table) (i j : Nat) : Option Nat :=
  if i < l.rows t then do
    let width ← (l.widths t)[j]?
    stream.read? width (l.offset t + i * (l.widths t).sum + ((l.widths t).take j).sum)
  else none

/-- where the methods of type `i` start in the method list, as its last column says -/
def methodList? (l : Layout) (stream : Bytes) (i : Nat) : Option Nat := l.cell? stream .typeDef i 5

/-- the method that is listed at a position, counted from 1: the target of the method pointer there, or the method of
that number when there are no method pointers -/
def listed? (l : Layout) (stream : Bytes) (position : Nat) : Option Nat :=
  if l.rows .methodPtr = 0 then some position else l.cell? stream .methodPtr (position - 1) 0

/-- no type starts in the method list before the type in front of it -/
def Ascending (l : Layout) (stream : Bytes) : Prop :=
  ∀ i v w, l.methodList? stream i = some v → l.methodList? stream (i + 1) = some w → v ≤ w

end Layout

/-- the positions of a list from `first` up to the one before `stop` -/
structure Run where
  first : Nat
  stop : Nat
  deriving DecidableEq, Repr

namespace Run

def positions (r : Run) : List Nat := List.range' r.first (r.stop - r.first)

end Run

/-- the types of the metadata share the method list of a table stream: each has one of the runs -/
structure SharesMethods (md : Metadata) (l : Layout) (stream : Bytes) (runs : List Run) : Prop where
  rowCounts : md.rowCounts = l.rowCounts
  types : md.types.size = l.rows .typeDef
  count : runs.length = md.types.size
  /-- a run may be empty, but it does not leave the list -/
  within : ∀ r ∈ runs, 1 ≤ r.first ∧ r.first ≤ r.stop ∧ r.stop ≤ l.listLength + 1
  /-- the methods of a type are those that are listed in its run -/
  methodRows : ∀ (i : Nat) (t : TypeEntry) (r : Run), md.types[i]? = some t → runs[i]? = some r →
    t.methodRows.map some = r.positions.map (l.listed? stream)
  /-- with ascending starts every run ends where the next one begins -/
  abut : l.Ascending stream → ∀ (i : Nat) (r s : Run), runs[i]? = some r → runs[i + 1]? = some s → r.stop = s.first
  /-- and together they are the list from the first start on, in which every position belongs to one type -/
  whole : l.Ascending stream → 0 < md.types.size → ∃ start, l.methodList? stream 0 = some start ∧
    runs.flatMap Run.positions
      = List.range' (max 1 (min start (l.listLength + 1))) (l.listLength + 1 - max 1 (min start (l.listLength + 1))) ∧
    ∀ position, max 1 (min start (l.listLength + 1)) ≤ position → position ≤ l.listLength →
      ∃! i : Nat, ∃ r : Run, runs[i]? = some r ∧ position ∈ r.positions

end CilPatch.Metadata
