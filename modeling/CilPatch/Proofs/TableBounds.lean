/-
The tables of an accepted stream lie inside of it, and their offsets are small numbers.

A header gives 64 counts of 32 bits, a row takes between two and 24 bytes, and the reader refuses a stream that is
shorter than its tables. So:

- `Layout.bounded_of_readCounts?`: whatever the header says, no offset comes near 64 bits;
- `Layout.row_le`, `Layout.rows_lt`: in an accepted stream every row lies before the end, and there are less than
  2^31 of them;
- `Layout.cell?_eq`: every cell of every row is there;
- `Root.size_tables_lt`: a stream of the directory is shorter than 2^32 bytes.
-/
import Mathlib.Tactic
import CilPatch.Metadata.Cells
import CilPatch.Proofs.Agreement
import CilPatch.Proofs.Tables
import CilPatch.Proofs.Traversal

namespace CilPatch.Metadata

/-! ## Sizes of rows -/

namespace Columns

theorem width_bounds (wide : Bool) : 2 ≤ width wide ∧ width wide ≤ 4 := by
  cases wide <;> simp [width]

/-- a row takes at least two bytes and at most 24 -/
theorem rowSize_bounds (heapSizes : Nat) (rows : Nat → Nat) (t : Table) :
    2 ≤ (ofCounts heapSizes rows).rowSize t ∧ (ofCounts heapSizes rows).rowSize t ≤ 24 := by
  obtain ⟨string, string'⟩ := width_bounds (heapSizes.testBit 0)
  obtain ⟨guid, guid'⟩ := width_bounds (heapSizes.testBit 1)
  obtain ⟨blob, blob'⟩ := width_bounds (heapSizes.testBit 2)
  have simple (table : Nat) : 2 ≤ simpleIndex rows table ∧ simpleIndex rows table ≤ 4 := width_bounds _
  have coded (tables : List Nat) : 2 ≤ codedIndex rows tables ∧ codedIndex rows tables ≤ 4 := width_bounds _
  have field := simple 0x04
  have method := simple 0x06
  have param := simple 0x08
  have scope := coded [0x00, 0x1A, 0x23, 0x01]
  have extends' := coded [0x02, 0x01, 0x1B]
  cases t <;> simp only [rowSize, ofCounts] <;> omega

end Columns

namespace Layout

variable {l : Layout} {t : Table}

theorem rowSize_bounds (l : Layout) (t : Table) : 2 ≤ l.columns.rowSize t ∧ l.columns.rowSize t ≤ 24 :=
  Columns.rowSize_bounds l.heapSizes l.count t

/-! ## What a header can say -/

/-- the counts have 32 bits, and the tables start right behind them -/
structure Bounded (l : Layout) : Prop where
  count : ∀ table, l.count table < Bytes.limit 4
  start : l.start ≤ 284

theorem readCounts?_bounds {stream : Bytes} {present : Nat} {tables counts : List Nat} {pos stop : Nat}
    (h : readCounts? stream present tables pos = some (counts, stop)) :
    (∀ n ∈ counts, n < Bytes.limit 4) ∧ stop ≤ pos + 4 * tables.length := by
  induction tables generalizing pos counts with
  | nil =>
    cases h
    simp
  | cons table tables ih =>
    rw [readCounts?] at h
    split at h
    · simp only [Option.bind_eq_bind, Option.bind_eq_some_iff] at h
      obtain ⟨n, hn, ⟨rest, last⟩, hrest, h⟩ := h
      cases h
      obtain ⟨hcounts, hstop⟩ := ih hrest
      refine ⟨List.forall_mem_cons.2 ⟨?_, hcounts⟩, by rw [List.length_cons]; omega⟩
      rw [(Bytes.eq_leAt_of_read? hn).2]
      exact Bytes.leAt_lt stream 4 pos
    · simp only [Option.bind_eq_bind, Option.bind_eq_some_iff] at h
      obtain ⟨⟨rest, last⟩, hrest, h⟩ := h
      cases h
      obtain ⟨hcounts, hstop⟩ := ih hrest
      exact ⟨List.forall_mem_cons.2 ⟨Bytes.limit_pos 4, hcounts⟩, by rw [List.length_cons]; omega⟩

/-- the header of any stream gives a layout with small numbers -/
theorem bounded_of_readCounts? {stream : Bytes} {present pos : Nat} {counts : List Nat}
    (h : readCounts? stream present (List.range 64) 24 = some (counts, pos)) (heapSizes : Nat) :
    Bounded ⟨heapSizes, counts, if heapSizes.testBit 6 then pos + 4 else pos⟩ := by
  obtain ⟨hcounts, hstop⟩ := readCounts?_bounds h
  rw [List.length_range] at hstop
  refine ⟨?_, ?_⟩
  · intro table
    rw [count, List.getD_eq_getElem?_getD]
    cases hc : counts[table]? with
    | none => exact Bytes.limit_pos 4
    | some n => exact hcounts n (List.mem_of_getElem? hc)
  · simp only
    split <;> omega

theorem read_eq_ok_iff {stream : Bytes} : Layout.read stream = .ok l ↔ ∃ present pos,
    stream.u8? 6 = some l.heapSizes ∧ stream.u64? 8 = some present ∧
    readCounts? stream present (List.range 64) 24 = some (l.rowCounts, pos) ∧
    l.start = (if l.heapSizes.testBit 6 then pos + 4 else pos) ∧ l.stop ≤ stream.size := by
  unfold Layout.read
  refine ⟨fun h => ?_, fun h => ?_⟩
  · split at h
    · rename_i heapSizes present hsizes hpresent
      split at h
      · cases h
      · rename_i counts pos hcounts
        generalize hstart : (if heapSizes.testBit 6 then pos + 4 else pos) = start at h
        dsimp only at h
        split_ifs at h with hfits
        cases h
        exact ⟨present, pos, hsizes, hpresent, hcounts, hstart.symm, hfits⟩
    · cases h
  · obtain ⟨present, pos, hsizes, hpresent, hcounts, hstart, hfits⟩ := h
    have hl : (⟨l.heapSizes, l.rowCounts, if l.heapSizes.testBit 6 then pos + 4 else pos⟩ : Layout) = l := by
      rw [← hstart]
    simp only [hsizes, hpresent, hcounts, hl, if_pos hfits]

theorem stop_le_of_read {stream : Bytes} (h : Layout.read stream = .ok l) : l.stop ≤ stream.size := by
  obtain ⟨present, pos, -, -, -, -, hfits⟩ := read_eq_ok_iff.1 h
  exact hfits

/-! ## Rows -/

theorem table_le (l : Layout) (t : Table) : l.offset t + l.rows t * l.columns.rowSize t ≤ l.stop := by
  cases t <;> simp only [offset, stop, sizeOf, Table.before, Table.number, Table.all, List.take, List.foldr] <;> omega

/-- a row ends where its table does, or before -/
theorem row_le {i : Nat} (hi : i < l.rows t) :
    l.offset t + i * l.columns.rowSize t + l.columns.rowSize t ≤ l.stop :=
  calc l.offset t + i * l.columns.rowSize t + l.columns.rowSize t
    _ = l.offset t + (i + 1) * l.columns.rowSize t := by rw [Nat.add_assoc, Nat.succ_mul]
    _ ≤ l.offset t + l.rows t * l.columns.rowSize t := Nat.add_le_add_left (Nat.mul_le_mul_right _ hi) _
    _ ≤ l.stop := l.table_le t

/-- tables that end below 2^32 have less than 2^31 rows -/
theorem rows_lt (h : l.stop < Bytes.limit 4) (t : Table) : l.rows t + 1 < Bytes.limit 4 := by
  have htwo : l.rows t * 2 ≤ l.rows t * l.columns.rowSize t := Nat.mul_le_mul_left _ (l.rowSize_bounds t).1
  have hstop := l.table_le t
  simp only [Bytes.limit] at h ⊢
  omega

theorem listLength_lt (h : l.stop < Bytes.limit 4) : l.listLength + 1 < Bytes.limit 4 := by
  rw [listLength]
  split
  · exact rows_lt h _
  · exact rows_lt h _

/-! ## Cells -/

theorem columns_eq (l : Layout) : l.columns = Columns.ofColumns l.heapSizes l.count :=
  Columns.ofCounts_eq_ofColumns l.heapSizes l.count

theorem sum_widths (l : Layout) (t : Table) : (l.widths t).sum = l.columns.rowSize t :=
  (Columns.rowSize_ofCounts l.heapSizes l.count t).symm

theorem take_add_le_sum {widths : List Nat} {j w : Nat} (h : widths[j]? = some w) :
    (widths.take j).sum + w ≤ widths.sum := by
  obtain ⟨hj, rfl⟩ := List.getElem?_eq_some_iff.1 h
  calc (widths.take j).sum + widths[j]
    _ = (widths.take (j + 1)).sum := by rw [List.sum_take_succ _ _ hj]
    _ ≤ (widths.take (j + 1)).sum + (widths.drop (j + 1)).sum := Nat.le_add_right _ _
    _ = widths.sum := List.sum_take_add_sum_drop _ _

/-- every cell of a row is there, as the number behind the columns before it -/
theorem cell?_eq {stream : Bytes} (hfits : l.stop ≤ stream.size) {i j w : Nat} (hi : i < l.rows t)
    (hw : (l.widths t)[j]? = some w) :
    l.cell? stream t i j
      = some (stream.leAt w (l.offset t + i * l.columns.rowSize t + ((l.widths t).take j).sum)) := by
  have hin : l.offset t + i * l.columns.rowSize t + ((l.widths t).take j).sum + w ≤ stream.size := by
    have hcolumn := take_add_le_sum hw
    have hrow := row_le hi
    rw [sum_widths] at hcolumn
    omega
  simp only [cell?, if_pos hi, hw, Option.bind_eq_bind, Option.bind_some, sum_widths, Bytes.read?, if_pos hin]

end Layout

/-! ## Streams -/

theorem Stream.size_lt_of_read {root : Bytes} {index pos : Nat} {s : Stream} (h : Stream.read root index pos = .ok s) :
    s.size < Bytes.limit 4 := by
  unfold Stream.read at h
  split at h
  · rename_i offset size name hoffset hsize hname
    split_ifs at h
    cases h
    rw [(Bytes.eq_leAt_of_read? hsize).2]
    exact Bytes.leAt_lt root 4 (pos + 4)
  · cases h

theorem Stream.size_data_le (root : Bytes) (s : Stream) : (s.data root).size ≤ s.size := by
  rw [data, Array.size_extract]
  omega

namespace Root

theorem readStreams_size_lt {root : Bytes} {count index pos : Nat} {seen streams : Array Stream}
    (h : readStreams root count index pos seen = .ok streams) (hseen : ∀ s ∈ seen, s.size < Bytes.limit 4) :
    ∀ s ∈ streams, s.size < Bytes.limit 4 := by
  induction count generalizing index pos seen with
  | zero =>
    cases h
    exact hseen
  | succ count ih =>
    rw [readStreams] at h
    split at h
    · cases h
    · rename_i s hs
      refine ih h ?_
      intro t ht
      rcases Array.mem_push.1 ht with ht | rfl
      · exact hseen t ht
      · exact Stream.size_lt_of_read hs

theorem readDirectory_size_lt {root : Bytes} {streams : Array Stream} (h : readDirectory root = .ok streams) :
    ∀ s ∈ streams, s.size < Bytes.limit 4 := by
  unfold readDirectory at h
  split at h
  · cases h
  · dsimp only at h
    split at h
    · cases h
    · exact readStreams_size_lt h (by simp)

theorem readHeaps_eq_ok_iff {root : Bytes} {name : Text} {h : Heaps} :
    readHeaps root = .ok (name, h) ↔ ∃ streams tables strings blobs, root.u32? 0 = some 0x424A5342 ∧
      readDirectory root = .ok streams ∧ find? streams tableStreamNames = some tables ∧
      find? streams [Text.ascii "#Strings"] = some strings ∧ find? streams [Text.ascii "#Blob"] = some blobs ∧
      name = lastNameAt streams tables ∧ h = ⟨tables.data root, strings.data root, blobs.data root⟩ := by
  unfold readHeaps
  refine ⟨fun e => ?_, fun e => ?_⟩
  · split_ifs at e with hsignature
    split at e
    · cases e
    · rename_i streams hstreams
      split at e
      · cases e
      · rename_i tables htables
        split at e
        · rename_i strings blobs hstrings hblobs
          cases e
          exact ⟨streams, tables, strings, blobs, not_not.1 hsignature, hstreams, htables, hstrings, hblobs, rfl, rfl⟩
        · cases e
  · obtain ⟨streams, tables, strings, blobs, hsignature, hstreams, htables, hstrings, hblobs, rfl, rfl⟩ := e
    rw [if_neg (not_not.2 hsignature)]
    simp only [hstreams, htables, hstrings, hblobs]

/-- the table stream is shorter than 2^32 bytes -/
theorem size_tables_lt {root : Bytes} {name : Text} {h : Heaps} (e : readHeaps root = .ok (name, h)) :
    h.tables.size < Bytes.limit 4 := by
  obtain ⟨streams, tables, strings, blobs, -, hstreams, htables, -, -, -, rfl⟩ := readHeaps_eq_ok_iff.1 e
  exact lt_of_le_of_lt (Stream.size_data_le root tables)
    (readDirectory_size_lt hstreams tables (Array.mem_of_find?_eq_some htables))

end Root

/-- reading a root is reading the tables in its streams -/
theorem ofRoot_eq (root : Bytes) :
    ofRoot root = Root.readHeaps root >>= fun r => readTables (Root.version root) r.1 r.2 := by
  unfold ofRoot Root.readHeaps
  split_ifs
  · rfl
  · cases hstreams : Root.readDirectory root with
    | error e => rfl
    | ok streams =>
      simp only
      cases Root.find? streams tableStreamNames with
      | none => rfl
      | some tables =>
        rcases Root.find? streams [Text.ascii "#Strings"] with _ | strings
        · rfl
        · rcases Root.find? streams [Text.ascii "#Blob"] with _ | blobs <;> rfl

end CilPatch.Metadata
