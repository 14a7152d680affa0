/-
Reading metadata never goes wrong in a step that is not guarded.

`checked_parse` is the main result: the reader on machine words, which looks at every step, gives the same metadata and
the same refusals as the reader on natural numbers, and never a fault. The one size check of the table stream makes sure
of all rows that are read behind it.

- `tableOffsets_eq`: the running offset of the tables, for any counts that a header can hold;
- `readMethod_eq`, `readPtr_eq`, `readType_eq`: rows of an accepted stream;
- `listStart_eq`, `rowAt_eq`: method lists and method pointers.
-/
import Mathlib.Tactic
import CilPatch.Metadata.Checked
import CilPatch.Proofs.MethodLists

namespace CilPatch.Metadata.Checked

/-! ## Steps -/

theorem word_of_lt {bytes n : Nat} (h : n < Bytes.limit bytes) : word bytes n = .ok n := if_pos h

theorem rowOffset_of_lt {base rowSize i : Nat} (h : base + i * rowSize < Bytes.limit 8) :
    rowOffset base rowSize i = .ok (base + i * rowSize) := by
  have hbefore : i * rowSize < Bytes.limit 8 := lt_of_le_of_lt (Nat.le_add_left _ _) h
  rw [rowOffset, word_of_lt hbefore]
  exact word_of_lt h

theorem limit_four : Bytes.limit 4 = 4294967296 := by decide

theorem limit_eight : Bytes.limit 8 = 18446744073709551616 := by decide

/-! ## Tables -/

/-- a step of the running offset is exact while the tables end within a word -/
theorem tableOffsets_of_lt {l : Layout} {tables : List Table} {pos : Nat}
    (h : pos + l.sizeOf tables < Bytes.limit 8) :
    tableOffsets l tables pos
      = .ok ((List.range tables.length).map fun k => pos + l.sizeOf (tables.take k), pos + l.sizeOf tables) := by
  induction tables generalizing pos with
  | nil => rfl
  | cons t tables ih =>
    have hcons : l.sizeOf (t :: tables) = l.rows t * l.columns.rowSize t + l.sizeOf tables := rfl
    rw [hcons] at h
    have hrest := @ih (pos + l.rows t * l.columns.rowSize t) (by omega)
    rw [tableOffsets, word_of_lt (by omega)]
    simp only [bind, Except.bind]
    rw [word_of_lt (by omega)]
    simp only [hrest, pure, Except.pure]
    congr 2
    · rw [List.length_cons, List.range_succ_eq_map, List.map_cons, List.map_map]
      congr 1
      refine List.map_congr_left ?_
      intro k _
      simp only [Function.comp_apply, Nat.succ_eq_add_one, List.take_succ_cons]
      exact Nat.add_assoc _ _ _
    · rw [hcons, Nat.add_assoc]

/-- seven tables of 32-bit counts end far below 2^64 -/
theorem stop_lt {l : Layout} (h : l.Bounded) : l.stop < Bytes.limit 8 := by
  have hsize (t : Table) : l.rows t * l.columns.rowSize t ≤ 4294967296 * 24 :=
    Nat.mul_le_mul (limit_four ▸ (h.count t.number).le) (l.rowSize_bounds t).2
  have hstart := h.start
  have := hsize .module
  have := hsize .typeRef
  have := hsize .typeDef
  have := hsize .fieldPtr
  have := hsize .field
  have := hsize .methodPtr
  have := hsize .methodDef
  rw [limit_eight]
  simp only [Layout.stop, Layout.sizeOf, Table.all, List.foldr]
  omega

/-- whatever a header says, the running offset of every table is what the sizes of those before it add up to -/
theorem tableOffsets_eq {l : Layout} (h : l.Bounded) :
    tableOffsets l Table.all l.start = .ok (Table.all.map l.offset, l.stop) := tableOffsets_of_lt (stop_lt h)

theorem readLayout_eq (stream : Bytes) :
    readLayout stream = ((Layout.read stream).map fun l => (l, Table.all.map l.offset)).mapError .refused := by
  unfold readLayout Layout.read
  rcases stream.u8? 6 with _ | heapSizes
  · rfl
  · rcases stream.u64? 8 with _ | present
    · rfl
    · rcases hcounts : Layout.readCounts? stream present (List.range 64) 24 with _ | ⟨counts, pos⟩
      · simp only [hcounts]
        rfl
      · have hbounded := Layout.bounded_of_readCounts? hcounts heapSizes
        have hstart : (if heapSizes.testBit 6 then pos + 4 else pos) < Bytes.limit 8 :=
          lt_of_le_of_lt hbounded.start (by decide)
        simp only [hcounts, word_of_lt hstart, bind, Except.bind, tableOffsets_eq hbounded]
        split_ifs <;> rfl

theorem getD_offset (l : Layout) (t : Table) : (Table.all.map l.offset).getD t.number 0 = l.offset t := by
  cases t <;> rfl

/-! ## Rows -/

theorem methodDef_width (l : Layout) : l.columns.methodDef = 2 ∨ l.columns.methodDef = 4 := by
  rw [l.columns_eq]
  have hindex : ∀ n, Column.index 0x06 ≠ .fixed n := by simp
  exact Column.width_index l.heapSizes l.count hindex

/-- the pointer that is taken is there -/
theorem rowAt_eq {ptrs : List Nat} {position : Nat} (hfirst : 1 ≤ position)
    (hlast : ptrs ≠ [] → position ≤ ptrs.length) :
    rowAt ptrs position = .ok (Heaps.rowAt ptrs.toArray position) := by
  rw [rowAt, Heaps.rowAt]
  rcases eq_or_ne ptrs [] with rfl | hne
  · rfl
  · have hlt : position - 1 < ptrs.length := by
      have := hlast hne
      omega
    rw [if_neg hne, if_neg (by omega), if_neg (by simpa using hne), List.getElem?_eq_getElem hlt]
    simp [demand, Array.getD_eq_getD_getElem?, List.getElem?_eq_getElem hlt]

/-- a position between two starts is one of the list, so it has a method pointer if there are any -/
theorem mapM_rowAt_eq (h : Heaps) (l : Layout) (i : Nat) :
    (h.positions l l.columns (l.offset .typeDef) i).mapM (rowAt (h.methodPtrs l).toList)
      = .ok ((h.positions l l.columns (l.offset .typeDef) i).map (Heaps.rowAt (h.methodPtrs l))) := by
  refine mapM_eq_ok_map ?_
  intro position hposition
  rw [Heaps.positions_eq, Run.mem_positions_between] at hposition
  have hfirst := h.runStart_bounds l i
  have hlast := h.runStart_bounds l (i + 1)
  refine rowAt_eq (by omega) ?_
  intro hne
  have hlength : (h.methodPtrs l).toList.length = l.rows .methodPtr := by simp [Heaps.methodPtrs]
  have hptrs : l.rows .methodPtr ≠ 0 := by
    rw [← hlength]
    exact fun e => hne (List.length_eq_zero_iff.1 e)
  have : l.listLength = l.rows .methodPtr := if_pos hptrs
  omega

section

variable {h : Heaps} {l : Layout} (hfits : l.stop ≤ h.tables.size) (hsize : h.tables.size < Bytes.limit 4)

include hsize in
/-- an offset in a stream that is shorter than 2^32 bytes fits into eight -/
theorem word_of_le {off : Nat} (hoff : off ≤ h.tables.size) : word 8 off = .ok off := by
  rw [limit_four] at hsize
  exact word_of_lt (by rw [limit_eight]; omega)

include hfits hsize

theorem rowOffset_eq {t : Table} {i : Nat} (hi : i < l.rows t) :
    rowOffset (l.offset t) (l.columns.rowSize t) i = .ok (l.offset t + i * l.columns.rowSize t) := by
  have hrow := Layout.row_le hi
  rw [limit_four] at hsize
  exact rowOffset_of_lt (by rw [limit_eight]; omega)

/-- the number of a row counts from 1 and fits into four bytes -/
theorem rowNumber_eq {t : Table} {i : Nat} (hi : i < l.rows t) : word 4 (i + 1) = .ok (i + 1) := by
  have := Layout.rows_lt (lt_of_le_of_lt hfits hsize) t
  exact word_of_lt (by omega)

theorem readMethod_eq {i : Nat} (hi : i < l.rows .methodDef) :
    readMethod h l.columns (l.offset .methodDef) i
      = (h.readMethod l.columns i (l.offset .methodDef + i * l.columns.rowSize .methodDef)).mapError .refused := by
  have hrow := Layout.row_le hi
  have hwidth : l.columns.rowSize .methodDef = 8 + l.columns.string + l.columns.blob + l.columns.param := rfl
  unfold readMethod Heaps.readMethod
  rw [rowOffset_eq hfits hsize hi, rowNumber_eq hfits hsize hi]
  generalize l.offset .methodDef + i * l.columns.rowSize .methodDef = off at hrow ⊢
  have hrva : h.tables.u32? off = some (h.tables.leAt 4 off) := Bytes.read?_of_le (by omega)
  have himpl : h.tables.u16? (off + 4) = some (h.tables.leAt 2 (off + 4)) := Bytes.read?_of_le (by omega)
  have hflags : h.tables.u16? (off + 6) = some (h.tables.leAt 2 (off + 6)) := Bytes.read?_of_le (by omega)
  have hword (k : Nat) (hk : k ≤ 8 + l.columns.string) : word 8 (off + k) = .ok (off + k) :=
    word_of_le hsize (by omega)
  simp only [bind, Except.bind, Nat.add_assoc, hword 8 (by omega), hword (8 + l.columns.string) le_rfl]
  rcases h.string? l.columns (off + 8) with _ | name
  · rfl
  · rcases h.tables.index? l.columns.blob (off + (8 + l.columns.string)) with _ | blob
    · rfl
    · simp only [hrva, himpl, hflags, hword 4 (by omega), hword 6 (by omega), demand]
      rfl

theorem readPtr_eq {i : Nat} (hi : i < l.rows .methodPtr) :
    readPtr h l.columns (l.offset .methodPtr) i
      = .ok (h.tables.leAt l.columns.methodDef (l.offset .methodPtr + i * l.columns.rowSize .methodPtr)) := by
  have hrow : l.offset .methodPtr + i * l.columns.rowSize .methodPtr + l.columns.methodDef ≤ l.stop := Layout.row_le hi
  rw [readPtr, rowOffset_eq hfits hsize hi]
  simp only [bind, Except.bind, Bytes.index?_of_le (methodDef_width l) (hrow.trans hfits), demand]

/-! ## Method lists -/

/-- the column is there, and the bounds of the clamp are in order -/
theorem listStart_eq (i : Nat) :
    listStart h l (l.offset .typeDef) i = .ok (h.listStart l l.columns (l.offset .typeDef) i) := by
  have hbehind := Layout.listLength_lt (lt_of_le_of_lt hfits hsize)
  rw [listStart, Heaps.listStart, word_of_lt hbehind]
  simp only [bind, Except.bind]
  split_ifs with hi
  · rfl
  · rw [Nat.not_le] at hi
    have hcolumn : l.offset .typeDef + i * l.columns.rowSize .typeDef + Layout.methodListColumn l.columns
        + l.columns.methodDef ≤ l.stop := by
      have : l.columns.rowSize .typeDef = Layout.methodListColumn l.columns + l.columns.methodDef := rfl
      have := Layout.row_le hi
      omega
    rw [rowOffset_eq hfits hsize hi]
    dsimp only
    generalize l.offset .typeDef + i * l.columns.rowSize .typeDef + Layout.methodListColumn l.columns = off at hcolumn ⊢
    have hword : word 8 off = .ok off := word_of_le hsize (by omega)
    have hread : h.tables.index? l.columns.methodDef off = some (h.tables.leAt l.columns.methodDef off) :=
      Bytes.index?_of_le (methodDef_width l) (by omega)
    simp only [hword, hread, demand]
    exact if_pos (Nat.succ_le_succ (Nat.zero_le _))

/-! ## Types -/

theorem readType_eq {i : Nat} (hi : i < l.rows .typeDef) :
    readType h l (h.methodPtrs l).toList (l.offset .typeDef) i
      = (h.readType l l.columns (h.methodPtrs l) (l.offset .typeDef) i).mapError .refused := by
  have hrow := Layout.row_le hi
  have hwidth : l.columns.rowSize .typeDef = 4 + 2 * l.columns.string + l.columns.typeDefOrRef + l.columns.field
    + l.columns.methodDef := rfl
  have hpositions : List.range' (h.listStart l l.columns (l.offset .typeDef) i)
      (max (h.listStart l l.columns (l.offset .typeDef) i) (h.listStart l l.columns (l.offset .typeDef) (i + 1))
        - h.listStart l l.columns (l.offset .typeDef) i) = h.positions l l.columns (l.offset .typeDef) i := by
    rw [Heaps.positions]
    congr 1
    omega
  unfold readType Heaps.readType
  rw [rowOffset_eq hfits hsize hi, rowNumber_eq hfits hsize hi]
  generalize l.offset .typeDef + i * l.columns.rowSize .typeDef = off at hrow ⊢
  have hname : word 8 (off + 4) = .ok (off + 4) := word_of_le hsize (by omega)
  have hspace : word 8 (off + 4 + l.columns.string) = .ok (off + 4 + l.columns.string) := word_of_le hsize (by omega)
  simp only [bind, Except.bind, hname, hspace]
  rcases h.string? l.columns (off + 4) with _ | name
  · rfl
  · rcases h.string? l.columns (off + 4 + l.columns.string) with _ | space
    · rfl
    · simp only [listStart_eq hfits hsize, hpositions, mapM_rowAt_eq]
      rfl

end

/-! ## Metadata -/

theorem readTables_eq {h : Heaps} {version name : Text} (hsize : h.tables.size < Bytes.limit 4) :
    readTables version name h = (Metadata.readTables version name h).mapError .refused := by
  unfold readTables Metadata.readTables
  rw [readLayout_eq]
  rcases hl : Layout.read h.tables with e | l
  · rfl
  · have hfits := Layout.stop_le_of_read hl
    have hmethods : (List.range (l.rows .methodDef)).mapM (readMethod h l.columns (l.offset .methodDef))
        = (h.readMethods l).mapError .refused :=
      mapM_mapError fun i hi => readMethod_eq hfits hsize (List.mem_range.1 hi)
    have hptrs : (List.range (l.rows .methodPtr)).mapM (readPtr h l.columns (l.offset .methodPtr))
        = .ok (h.methodPtrs l).toList :=
      mapM_eq_ok_map fun i hi => readPtr_eq hfits hsize (List.mem_range.1 hi)
    have htypes : (List.range (l.rows .typeDef)).mapM (readType h l (h.methodPtrs l).toList (l.offset .typeDef))
        = (h.readTypes l).mapError .refused :=
      mapM_mapError fun i hi => readType_eq hfits hsize (List.mem_range.1 hi)
    simp only [Except.map, Except.mapError, bind, Except.bind, getD_offset, hmethods, hptrs, htypes]
    rcases h.readMethods l with e | methods
    · rfl
    · rcases h.readTypes l with e | types <;> rfl

/-! ## Main result -/

/-- **No unguarded step of the reader goes wrong.** For every file, all sections and every address of the CLI header,
reading with all steps checked gives what reading gives, and no fault: the rows that are read without a guard lie inside
the table stream, every method pointer that is taken is there, bounds are in order, and offsets, row numbers and list
positions fit into their words. -/
theorem checked_parse (file : Bytes) (sections : List Pe.Section) (cliRva : Nat) :
    Checked.parse file sections cliRva = (Metadata.parse file sections cliRva).mapError .refused ∧
      ∀ fault, Checked.parse file sections cliRva ≠ .error (.faulted fault) := by
  have heq : Checked.parse file sections cliRva = (Metadata.parse file sections cliRva).mapError .refused := by
    unfold Checked.parse Metadata.parse
    rcases locateRoot file sections cliRva with e | root
    · rfl
    · simp only [ofRoot_eq, Except.mapError, bind, Except.bind]
      rcases hheaps : Root.readHeaps root with e | ⟨name, heaps⟩
      · rfl
      · exact readTables_eq (Root.size_tables_lt hheaps)
  refine ⟨heq, ?_⟩
  intro fault hfault
  rw [heq] at hfault
  cases hparse : Metadata.parse file sections cliRva with
  | error e =>
    rw [hparse] at hfault
    cases hfault
  | ok md =>
    rw [hparse] at hfault
    cases hfault

end CilPatch.Metadata.Checked
