/-
The numbers of a table stream are read where its layout puts them.

`exists_column` is the main result: in a stream that holds well-formed tables, every column of every row is read as the
number in it.

- `ofCounts_eq_ofColumns`, `rowSize_ofCounts`: the reader has the widths and row sizes of the columns;
- `readCounts?_of_holds`, `read_of_holds`: the header gives the row counts, and from them the layout;
- `Row.holds_column`, `holds_table`: where the rows of a table and the columns of a row stand.
-/
import Mathlib.Tactic
import CilPatch.Metadata.TableStream
import CilPatch.Proofs.Directory

namespace CilPatch.Metadata

open Bytes (Holds)

/-! ## Widths -/

namespace Columns

variable (heapSizes : Nat) (rows : Nat → Nat)

theorem simpleIndex_eq_width (table : Nat) : simpleIndex rows table = (Column.index table).width heapSizes rows := by
  simp only [simpleIndex, Columns.width, Column.width, decide_eq_true_eq]
  split <;> split <;> omega

theorem codedIndex_eq_width (tables : List Nat) :
    codedIndex rows tables = (Column.coded tables).width heapSizes rows := by
  simp only [codedIndex, Columns.width, Column.width, List.any_eq_true, decide_eq_true_eq]
  split
  · next h =>
    obtain ⟨t, ht, hge⟩ := h
    exact (if_neg fun hall => Nat.not_lt.2 hge (hall t ht)).symm
  · next h => exact (if_pos fun t ht => Nat.lt_of_not_le fun hge => h ⟨t, ht, hge⟩).symm

/-- the widths of the index columns, each taken from the column -/
def ofColumns : Columns where
  string := Column.string.width heapSizes rows
  guid := Column.guid.width heapSizes rows
  blob := Column.blob.width heapSizes rows
  field := (Column.index 0x04).width heapSizes rows
  methodDef := (Column.index 0x06).width heapSizes rows
  param := (Column.index 0x08).width heapSizes rows
  resolutionScope := Column.resolutionScope.width heapSizes rows
  typeDefOrRef := Column.typeDefOrRef.width heapSizes rows

/-- the reader has the widths of the columns -/
theorem ofCounts_eq_ofColumns : ofCounts heapSizes rows = ofColumns heapSizes rows := by
  simp only [ofCounts, simpleIndex_eq_width heapSizes, codedIndex_eq_width heapSizes]
  rfl

/-- the size of a row is the sum of the widths of its columns -/
theorem rowSize_ofCounts (t : Table) :
    (ofCounts heapSizes rows).rowSize t = (t.columns.map (Column.width heapSizes rows)).sum := by
  have hfixed (n : Nat) : (Column.fixed n).width heapSizes rows = n := rfl
  rw [ofCounts_eq_ofColumns]
  cases t <;> simp only [rowSize, ofColumns, Table.columns, List.map_cons, List.map_nil, List.sum_cons, List.sum_nil, hfixed] <;>
    omega

end Columns

/-! ## Columns of a row -/

namespace Column

variable {heapSizes : Nat} {rows : Nat → Nat}

theorem width_index (heapSizes : Nat) (rows : Nat → Nat) {c : Column} (hc : ∀ n, c ≠ .fixed n) :
    c.width heapSizes rows = 2 ∨ c.width heapSizes rows = 4 := by
  cases c with
  | fixed n => exact absurd rfl (hc n)
  | _ => simp only [width]; split_ifs <;> simp

theorem width_pos {t : Table} {c : Column} (hc : c ∈ t.columns) : 0 < c.width heapSizes rows := by
  by_cases hindex : ∀ n, c ≠ .fixed n
  · rcases width_index heapSizes rows hindex with h | h <;> rw [h] <;> decide
  · push Not at hindex
    obtain ⟨n, rfl⟩ := hindex
    cases t <;> simp [Table.columns, Column.resolutionScope, Column.typeDefOrRef] at hc <;> simp only [width] <;> omega

end Column

namespace Row

variable {widths : List Nat} {row : Row}

theorem length_bytes (h : row.Fits widths) : (bytes widths row).length = widths.sum := by
  obtain ⟨hlen, -⟩ := h
  unfold bytes
  induction widths generalizing row with
  | nil => simp
  | cons w widths ih =>
    cases row with
    | nil => simp at hlen
    | cons v row =>
      have : (bytes widths row).length = widths.sum := ih (by simpa using hlen)
      simpa [bytes] using this

/-- the number in a column stands behind the columns before it -/
theorem holds_column {b : Bytes} {off : Nat} (h : row.Fits widths) (hb : Holds b off (bytes widths row)) {j w v : Nat}
    (hw : widths[j]? = some w) (hv : row[j]? = some v) :
    v < Bytes.limit w ∧ Holds b (off + (widths.take j).sum) (Bytes.toLE w v) := by
  obtain ⟨hlen, hfit⟩ := h
  induction widths generalizing row off j with
  | nil => simp at hw
  | cons u widths ih =>
    cases row with
    | nil => simp at hv
    | cons x row =>
      have hb' : Holds b off (Bytes.toLE u x ++ bytes widths row) := hb
      cases j with
      | zero =>
        cases hw
        cases hv
        exact ⟨hfit (w, v) (by simp), by simpa using hb'.left⟩
      | succ j =>
        have hrest := hb'.right
        rw [Bytes.length_toLE] at hrest
        have := ih hrest (by simpa using hw) (by simpa using hv) (by simpa using hlen)
          fun p hp => hfit p (by simp [hp])
        simpa [Nat.add_assoc] using this

end Row

/-! ## The header of the stream -/

/-- the row counts of the tables are read where those of the present ones stand -/
theorem Layout.readCounts?_of_holds {stream : Bytes} {present : Nat} {count : Nat → Nat}
    (hlt : ∀ table, count table < Bytes.limit 4) (habsent : ∀ table, present.testBit table = false → count table = 0)
    (tables : List Nat) {pos : Nat}
    (h : stream.Holds pos ((tables.filter present.testBit).flatMap fun table => Bytes.toLE 4 (count table))) :
    readCounts? stream present tables pos
      = some (tables.map count, pos + 4 * (tables.filter present.testBit).length) := by
  induction tables generalizing pos with
  | nil => simp [readCounts?]
  | cons table tables ih =>
    cases hp : present.testBit table with
    | false =>
      rw [List.filter_cons_of_neg (by simp [hp])] at h ⊢
      rw [readCounts?, hp]
      simp [ih h, habsent table hp]
    | true =>
      rw [List.filter_cons_of_pos (by simp [hp])] at h ⊢
      rw [List.flatMap_cons] at h
      have hread : stream.u32? pos = some (count table) := Bytes.read?_of_holds_lt (by omega) (hlt table) h.left
      have hrest := h.right
      rw [Bytes.length_toLE] at hrest
      rw [readCounts?, hp]
      simp [hread, ih hrest]
      omega

namespace TableStream

variable {s : TableStream} {stream : Bytes}

/-- the layout that the header of the stream describes -/
def layout (s : TableStream) : Layout :=
  ⟨s.heapSizes, s.rowCounts, (s.header ++ s.countBytes ++ s.extra).length⟩

theorem columns_layout (s : TableStream) : s.layout.columns = Columns.ofColumns s.heapSizes s.count :=
  Columns.ofCounts_eq_ofColumns s.heapSizes s.count

theorem methodDef_columns (s : TableStream) :
    s.layout.columns.methodDef = (Column.index 0x06).width s.heapSizes s.count := by
  rw [columns_layout]
  rfl

theorem WellFormed.length_header (h : s.WellFormed) : s.header.length = 24 := by
  simp [header, h.version, h.sorted]

theorem WellFormed.count_lt (h : s.WellFormed) (table : Nat) : s.count table < Bytes.limit 4 := by
  rw [TableStream.count, List.getD_eq_getElem?_getD]
  cases hc : s.rowCounts[table]? with
  | none => exact Bytes.limit_pos 4
  | some n => exact h.counts n (List.mem_of_getElem? hc)

theorem WellFormed.map_count (h : s.WellFormed) : (List.range 64).map s.count = s.rowCounts := by
  refine List.ext_getElem (by simp [h.count]) fun i hi hi' => ?_
  rw [List.getElem_map, List.getElem_range, TableStream.count, List.getD_eq_getElem?_getD,
    List.getElem?_eq_getElem hi', Option.getD_some]

/-- the first table starts behind the row counts, or four bytes later -/
theorem WellFormed.layout_eq (h : s.WellFormed) : s.layout = ⟨s.heapSizes, s.rowCounts,
    if s.heapSizes.testBit 6 then 24 + 4 * ((List.range 64).filter s.present.testBit).length + 4
    else 24 + 4 * ((List.range 64).filter s.present.testBit).length⟩ := by
  have hcounts : s.countBytes.length = ((List.range 64).filter s.present.testBit).length * 4 :=
    Bytes.length_records fun table _ => Bytes.length_toLE 4 (s.count table)
  have hstart : (s.header ++ s.countBytes ++ s.extra).length
      = 24 + 4 * ((List.range 64).filter s.present.testBit).length + if s.heapSizes.testBit 6 then 4 else 0 := by
    rw [List.length_append, List.length_append, h.length_header, hcounts, h.extra, Nat.mul_comm]
  rw [layout, hstart]
  split_ifs <;> rfl

theorem WellFormed.length_row (h : s.WellFormed) {t : Table} {row : Row} (hrow : row ∈ s.rows t) :
    (Row.bytes (s.widths t) row).length = (Columns.ofCounts s.heapSizes s.count).rowSize t := by
  rw [Row.length_bytes (h.fit t row hrow), Columns.rowSize_ofCounts]
  rfl

/-- the reader's size of some tables is the length of their bytes -/
theorem WellFormed.sizeOf_layout (h : s.WellFormed) (ts : List Table) :
    s.layout.sizeOf ts = (ts.flatMap s.tableBytes).length := by
  induction ts with
  | nil => rfl
  | cons t ts ih =>
    rw [List.flatMap_cons, List.length_append, ← ih, tableBytes, Bytes.length_records fun row hrow => h.length_row hrow,
      h.rowCount]
    rfl

/-- the header of a well-formed stream is read as its layout -/
theorem read_of_holds (h : s.WellFormed) (hs : stream.Holds 0 s.bytes) : Layout.read stream = .ok s.layout := by
  have hheader := hs.left.left.left
  unfold header at hheader
  have hsizes : stream.u8? 6 = some s.heapSizes := by
    have hflags : stream.Holds (0 + s.version.length) ([UInt8.ofNat s.heapSizes] ++ [s.reserved]) :=
      hheader.left.left.right
    rw [h.version] at hflags
    have := Bytes.u8?_of_holds hflags.left
    rwa [UInt8.toNat_ofNat_of_lt' h.heapSizes] at this
  have hpresent : stream.u64? 8 = some s.present := by
    have := hheader.left.right
    simp only [List.length_append, h.version, List.length_cons, List.length_nil] at this
    exact Bytes.read?_of_holds_lt (by omega) h.present this
  have hcounts := hs.left.left.right
  rw [h.length_header] at hcounts
  have hread := Layout.readCounts?_of_holds h.count_lt h.absent (List.range 64) hcounts
  rw [h.map_count] at hread
  -- the reader refuses a stream that ends before its tables do
  have hstop : s.layout.stop = s.bytes.length := by
    rw [Layout.stop, h.sizeOf_layout, bytes, List.length_append]
    rfl
  have hfits : s.layout.stop ≤ stream.size := by
    have hne : s.bytes ≠ [] := List.ne_nil_of_length_pos (by
      simp only [bytes, List.length_append, h.length_header]
      omega)
    simpa [hstop] using hs.size_le hne
  simp only [Layout.read, hsizes, hpresent, hread]
  rw [Nat.zero_add, ← h.layout_eq, if_pos hfits]

/-! ## Rows -/

/-- every table stands behind those before it -/
theorem holds_table (h : s.WellFormed) (hs : stream.Holds 0 s.bytes) (t : Table) :
    stream.Holds (s.layout.offset t) (s.tableBytes t) := by
  have hsplit : Table.all = t.before ++ t :: Table.all.drop (t.number + 1) := by cases t <;> rfl
  have htables := hs.right
  rw [hsplit, List.flatMap_append, List.flatMap_cons, Nat.zero_add] at htables
  have := htables.right.left
  rwa [← h.sizeOf_layout] at this

/-- where row `i` of a table starts, counted from 0 -/
def rowOffset (s : TableStream) (t : Table) (i : Nat) : Nat := s.layout.offset t + i * s.layout.columns.rowSize t

/-- every column of a row is read as the number in it -/
theorem exists_column (h : s.WellFormed) (hs : stream.Holds 0 s.bytes) {t : Table} {i : Nat} {row : Row}
    (hi : (s.rows t)[i]? = some row) (j off : Nat) {c : Column} (hc : t.columns[j]? = some c)
    (hoff : ((s.widths t).take j).sum = off) :
    ∃ v, row[j]? = some v ∧ stream.read? (c.width s.heapSizes s.count) (s.rowOffset t i + off) = some v := by
  have hrow : row ∈ s.rows t := List.mem_of_getElem? hi
  have hfit := h.fit t row hrow
  have hholds : stream.Holds (s.rowOffset t i) (Row.bytes (s.widths t) row) :=
    (holds_table h hs t).record (fun r hr => h.length_row hr) hi
  have hw : (s.widths t)[j]? = some (c.width s.heapSizes s.count) := by rw [widths, List.getElem?_map, hc]; rfl
  have hj : j < row.length := by
    rw [hfit.1]
    exact (List.getElem?_eq_some_iff.1 hw).1
  obtain ⟨hlt, hv⟩ := Row.holds_column hfit hholds hw (List.getElem?_eq_getElem hj)
  rw [hoff] at hv
  have hpos : 0 < c.width s.heapSizes s.count := Column.width_pos (List.mem_of_getElem? hc)
  exact ⟨row[j], List.getElem?_eq_getElem hj, Bytes.read?_of_holds_lt hpos hlt hv⟩

/-- the same for an index column, whose width is 2 or 4 -/
theorem exists_index (h : s.WellFormed) (hs : stream.Holds 0 s.bytes) {t : Table} {i : Nat} {row : Row}
    (hi : (s.rows t)[i]? = some row) (j off : Nat) {c : Column} (hc : t.columns[j]? = some c)
    (hindex : ∀ n, c ≠ .fixed n) (hoff : ((s.widths t).take j).sum = off) :
    ∃ v, row[j]? = some v ∧ stream.index? (c.width s.heapSizes s.count) (s.rowOffset t i + off) = some v := by
  obtain ⟨v, hv, hread⟩ := exists_column h hs hi j off hc hoff
  refine ⟨v, hv, ?_⟩
  rcases Column.width_index s.heapSizes s.count hindex with hw | hw
  · rw [hw] at hread ⊢
    exact hread
  · rw [hw] at hread ⊢
    exact hread

end TableStream

end CilPatch.Metadata
