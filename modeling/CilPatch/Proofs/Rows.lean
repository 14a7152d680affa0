/-
The rows of the method and type tables are read as they were laid out.

`parse_of_laidOut` is the main result: when a well-formed table stream stands in a mapped root beside its heaps, reading
succeeds and gives the rows of the method and type tables in order, with the names, signatures and methods that their
columns stand for.

- `readMethod_of_holds`, `readType_of_holds`: one row;
- `positions_eq_ownedMethods`: which methods a type owns;
- `readTables_of_holds`: all tables of a stream;
- `locateRoot_of_mapped`, `find?_of_firstStream`: where the stream and its heaps are found.
-/
import Mathlib.Tactic
import CilPatch.Pe.Layout
import CilPatch.Proofs.Opening
import CilPatch.Proofs.Tables

namespace CilPatch.Metadata

open Bytes (Holds)

/-! ## What the rows stand for -/

/-- the heap holds the string with its terminator at the index -/
def Names (heap : Bytes) (index : Nat) (text : Text) : Prop := 0 ∉ text ∧ Holds heap index (text ++ [0])

/-- the entry is what row `i` of the method table stands for, counted from 0 -/
structure MethodRow.Decodes (strings blobs : Bytes) (i : Nat) (columns : Row) (m : MethodRow) : Prop where
  row : m.row = i + 1
  rva : columns[0]? = some m.rva
  implFlags : columns[1]? = some m.implFlags
  flags : columns[2]? = some m.flags
  name : ∃ index, columns[3]? = some index ∧ Names strings index m.name
  signature : ∃ index, columns[4]? = some index ∧ m.signature = (Blob.entry? blobs index).bind MethodSignature.decode?

/-- the entry is what row `i` of the type table stands for, counted from 0 -/
structure TypeEntry.Decodes (s : TableStream) (strings : Bytes) (i : Nat) (columns : Row) (t : TypeEntry) :
    Prop where
  row : t.row = i + 1
  name : ∃ index, columns[1]? = some index ∧ Names strings index t.name
  space : ∃ index, columns[2]? = some index ∧ Names strings index t.space
  methodRows : t.methodRows = s.ownedMethods i

/-- every row of the table has the index of a string in the column -/
def TableStream.NamedBy (s : TableStream) (strings : Bytes) (t : Table) (column : Nat) : Prop :=
  ∀ row ∈ s.rows t, ∀ index, row[column]? = some index → ∃ text, Names strings index text

/-- the names of methods and types and the namespaces of types are strings -/
structure TableStream.Named (s : TableStream) (strings : Bytes) : Prop where
  method : s.NamedBy strings .methodDef 3
  type : s.NamedBy strings .typeDef 1
  space : s.NamedBy strings .typeDef 2

/-- the methods and types are the rows of their tables, all of them and in order -/
structure TableStream.Decodes (s : TableStream) (strings blobs : Bytes) (md : Metadata) : Prop where
  heapSizes : md.heapSizes = s.heapSizes
  rowCounts : md.rowCounts = s.rowCounts
  methodCount : md.methods.size = (s.rows .methodDef).length
  methods : ∀ (i : Nat) (row : Row) (m : MethodRow), (s.rows .methodDef)[i]? = some row → md.methods[i]? = some m →
    m.Decodes strings blobs i row
  typeCount : md.types.size = (s.rows .typeDef).length
  types : ∀ (i : Nat) (row : Row) (t : TypeEntry), (s.rows .typeDef)[i]? = some row → md.types[i]? = some t →
    t.Decodes s strings i row

/-- the method list column stands behind the other five, whatever the counts -/
theorem Columns.methodListColumn_ofCounts (heapSizes : Nat) (rows : Nat → Nat) :
    Layout.methodListColumn (ofCounts heapSizes rows)
      = ((Table.typeDef.columns.map (Column.width heapSizes rows)).take 5).sum := by
  rw [ofCounts_eq_ofColumns]
  simp only [Layout.methodListColumn, ofColumns, Table.columns, List.map_cons, List.take_succ_cons, List.take_zero,
    List.sum_cons, List.sum_nil, Column.width]
  omega

theorem cstring?_of_names {heap : Bytes} {index : Nat} {text : Text} (h : Names heap index text) :
    heap.cstring? index = some text := Bytes.cstring?_of_holds h.1 h.2

namespace TableStream

variable {s : TableStream} {heaps : Heaps}

/-! ## Methods -/

/-- a string column is read as the string whose index it holds -/
theorem string?_of_index {off index : Nat} {text : Text}
    (hread : heaps.tables.index? (Column.string.width s.heapSizes s.count) off = some index)
    (htext : Names heaps.strings index text) : heaps.string? s.layout.columns off = some text :=
  Option.bind_eq_some_iff.2 ⟨index, hread, cstring?_of_names htext⟩

/-- a method row is read as what it stands for -/
theorem readMethod_of_holds (h : s.WellFormed) (hs : heaps.tables.Holds 0 s.bytes) {i : Nat} {row : Row}
    (hi : (s.rows .methodDef)[i]? = some row)
    (hname : ∀ index, row[3]? = some index → ∃ text, Names heaps.strings index text) :
    ∃ m, heaps.readMethod s.layout.columns i (s.rowOffset .methodDef i) = .ok m ∧
      m.Decodes heaps.strings heaps.blobs i row := by
  have hbefore : ((s.widths .methodDef).take 4).sum = 8 + s.layout.columns.string := by
    change 4 + (2 + (2 + (s.layout.columns.string + 0))) = _
    omega
  obtain ⟨rva, hrva, readRva⟩ := exists_column h hs hi 0 0 rfl rfl
  obtain ⟨impl, himpl, readImpl⟩ := exists_column h hs hi 1 4 rfl rfl
  obtain ⟨flags, hflags, readFlags⟩ := exists_column h hs hi 2 6 rfl rfl
  obtain ⟨index, hindex, readIndex⟩ := exists_index h hs hi 3 8 rfl (by simp) rfl
  obtain ⟨blob, hblob, readBlob⟩ := exists_index h hs hi 4 _ rfl (by simp) hbefore
  obtain ⟨text, htext⟩ := hname index hindex
  have hsignature : heaps.tables.index? s.layout.columns.blob
      (s.rowOffset .methodDef i + 8 + s.layout.columns.string) = some blob := by
    rw [Nat.add_assoc]
    exact readBlob
  have hread : heaps.readMethod s.layout.columns i (s.rowOffset .methodDef i)
      = .ok ⟨i + 1, rva, impl, flags, text, heaps.signature? blob⟩ := by
    simp only [Heaps.readMethod, string?_of_index readIndex htext, hsignature]
    rw [(Bytes.eq_leAt_of_read? readRva).2, (Bytes.eq_leAt_of_read? readImpl).2, (Bytes.eq_leAt_of_read? readFlags).2]
    rfl
  exact ⟨_, hread, rfl, hrva, himpl, hflags, ⟨index, hindex, htext⟩, ⟨blob, hblob, rfl⟩⟩

/-- the method table is read row by row -/
theorem readMethods_of_holds (h : s.WellFormed) (hs : heaps.tables.Holds 0 s.bytes) (hnamed : s.Named heaps.strings) :
    ∃ methods, heaps.readMethods s.layout = .ok methods ∧ methods.length = (s.rows .methodDef).length ∧
      ∀ (i : Nat) (row : Row) (m : MethodRow), (s.rows .methodDef)[i]? = some row → methods[i]? = some m →
        m.Decodes heaps.strings heaps.blobs i row :=
  exists_mapM_range (h.rowCount .methodDef) fun _ row hi =>
    readMethod_of_holds h hs hi (hnamed.method row (List.mem_of_getElem? hi))

/-! ## Method lists -/

/-- the method list column of a type row stands behind the other five -/
theorem methodListColumn_eq (s : TableStream) :
    Layout.methodListColumn s.layout.columns = ((s.widths .typeDef).take 5).sum :=
  Columns.methodListColumn_ofCounts s.heapSizes s.count

/-- the method pointers are read as the numbers in their only column -/
theorem methodPtrs_of_holds (h : s.WellFormed) (hs : heaps.tables.Holds 0 s.bytes) :
    heaps.methodPtrs s.layout = ((s.rows .methodPtr).map fun row => row.getD 0 0).toArray := by
  refine congrArg List.toArray (List.ext_getElem ?_ fun i hi hi' => ?_)
  · rw [List.length_map, List.length_map, List.length_range, h.rowCount]
    rfl
  · rw [List.length_map] at hi'
    obtain ⟨v, hv, hread⟩ := exists_column h hs (List.getElem?_eq_getElem hi') 0 0 rfl rfl
    rw [List.getElem_map, List.getElem_map, List.getElem_range, List.getD_eq_getElem?_getD, hv, methodDef_columns]
    exact (Bytes.eq_leAt_of_read? hread).2.symm

theorem listLength_layout (h : s.WellFormed) : s.layout.listLength = s.methodList.length := by
  have hptr : s.layout.rows .methodPtr = (s.rows .methodPtr).length := (h.rowCount .methodPtr).symm
  have hdef : s.layout.rows .methodDef = (s.rows .methodDef).length := (h.rowCount .methodDef).symm
  rw [Layout.listLength, hptr, hdef, methodList]
  rcases eq_or_ne (s.rows .methodPtr) [] with hnil | hne
  · rw [hnil, if_pos rfl, List.length_range']
    rfl
  · rw [if_pos fun e => hne (List.length_eq_zero_iff.1 e), if_neg hne, List.length_map]

/-- a position of the method list, counted from 1, is read as the row that stands there -/
theorem rowAt_methodPtrs (h : s.WellFormed) (hs : heaps.tables.Holds 0 s.bytes) {k : Nat}
    (hk : k < s.methodList.length) : Heaps.rowAt (heaps.methodPtrs s.layout) (k + 1) = s.methodList[k] := by
  rw [methodPtrs_of_holds h hs, Heaps.rowAt]
  rcases eq_or_ne (s.rows .methodPtr) [] with hnil | hne
  · have hlist : s.methodList = List.range' 1 (s.rows .methodDef).length := if_pos hnil
    simp only [hlist, hnil, List.map_nil, List.getElem_range', Nat.one_mul]
    exact Nat.add_comm k 1
  · have hlist : s.methodList = (s.rows .methodPtr).map fun row => row.getD 0 0 := if_neg hne
    have hk' : k < ((s.rows .methodPtr).map fun row => row.getD 0 0).length := hlist ▸ hk
    simp only [hlist]
    rw [if_neg (by simpa using hne), Array.getD_eq_getD_getElem?, Nat.add_sub_cancel, List.getElem?_toArray,
      List.getElem?_eq_getElem hk', Option.getD_some]

theorem methodsBefore_le (s : TableStream) (i : Nat) : s.methodsBefore i ≤ s.methodList.length := by
  rw [methodsBefore]
  split
  · exact le_rfl
  · exact Nat.min_le_right _ _

/-- the reader counts positions from 1, and clamps them to the list -/
theorem listStart_of_holds (h : s.WellFormed) (hs : heaps.tables.Holds 0 s.bytes) (i : Nat) :
    heaps.listStart s.layout s.layout.columns (s.layout.offset .typeDef) i = s.methodsBefore i + 1 := by
  have hrows : s.layout.rows .typeDef = (s.rows .typeDef).length := (h.rowCount .typeDef).symm
  rw [Heaps.listStart, hrows, listLength_layout h, methodsBefore]
  rcases Nat.lt_or_ge i (s.rows .typeDef).length with hlt | hge
  · have hi := List.getElem?_eq_getElem hlt
    obtain ⟨v, hv, hread⟩ := exists_column h hs hi 5 _ rfl s.methodListColumn_eq.symm
    have hcolumn : heaps.tables.leAt s.layout.columns.methodDef (s.layout.offset .typeDef
        + i * s.layout.columns.rowSize .typeDef + Layout.methodListColumn s.layout.columns) = v := by
      rw [methodDef_columns]
      exact (Bytes.eq_leAt_of_read? hread).2.symm
    rw [if_neg (Nat.not_le.2 hlt), hi, hcolumn, clampPosition]
    simp only [List.getD_eq_getElem?_getD, hv, Option.getD_some]
    omega
  · rw [if_pos hge, List.getElem?_eq_none hge]

/-- the reader gives every type the methods that it owns -/
theorem positions_eq_ownedMethods (h : s.WellFormed) (hs : heaps.tables.Holds 0 s.bytes) (i : Nat) :
    (heaps.positions s.layout s.layout.columns (s.layout.offset .typeDef) i).map
      (Heaps.rowAt (heaps.methodPtrs s.layout)) = s.ownedMethods i := by
  have hle := s.methodsBefore_le (i + 1)
  rw [Heaps.positions, listStart_of_holds h hs, listStart_of_holds h hs, ownedMethods]
  refine List.ext_getElem ?_ fun k hk hk' => ?_
  · simp only [List.length_map, List.length_range', List.length_drop, List.length_take]
    omega
  · rw [List.length_drop, List.length_take] at hk'
    have hlt : s.methodsBefore i + k < s.methodList.length := by omega
    rw [List.getElem_map, List.getElem_range', List.getElem_drop, List.getElem_take, ← rowAt_methodPtrs h hs hlt]
    congr 1
    omega

/-! ## Types -/

/-- a type row is read as what it stands for -/
theorem readType_of_holds (h : s.WellFormed) (hs : heaps.tables.Holds 0 s.bytes) {i : Nat} {row : Row}
    (hi : (s.rows .typeDef)[i]? = some row)
    (hname : ∀ index, row[1]? = some index → ∃ text, Names heaps.strings index text)
    (hspace : ∀ index, row[2]? = some index → ∃ text, Names heaps.strings index text) :
    ∃ t, heaps.readType s.layout s.layout.columns (heaps.methodPtrs s.layout) (s.layout.offset .typeDef) i = .ok t ∧
      t.Decodes s heaps.strings i row := by
  have hbefore : ((s.widths .typeDef).take 2).sum = 4 + s.layout.columns.string := rfl
  obtain ⟨p, hp, readName⟩ := exists_index h hs hi 1 4 rfl (by simp) rfl
  obtain ⟨q, hq, readSpace⟩ := exists_index h hs hi 2 _ rfl (by simp) hbefore
  obtain ⟨name, namesName⟩ := hname p hp
  obtain ⟨space, namesSpace⟩ := hspace q hq
  rw [← Nat.add_assoc] at readSpace
  have hread : heaps.readType s.layout s.layout.columns (heaps.methodPtrs s.layout) (s.layout.offset .typeDef) i
      = .ok ⟨i + 1, space, name, s.ownedMethods i⟩ := by
    have h1 := string?_of_index readName namesName
    have h2 := string?_of_index readSpace namesSpace
    unfold rowOffset at h1 h2
    simp only [Heaps.readType, h1, h2, positions_eq_ownedMethods h hs]
  exact ⟨_, hread, rfl, ⟨p, hp, namesName⟩, ⟨q, hq, namesSpace⟩, rfl⟩

/-- the type table is read row by row -/
theorem readTypes_of_holds (h : s.WellFormed) (hs : heaps.tables.Holds 0 s.bytes) (hnamed : s.Named heaps.strings) :
    ∃ types, heaps.readTypes s.layout = .ok types ∧ types.length = (s.rows .typeDef).length ∧
      ∀ (i : Nat) (row : Row) (t : TypeEntry), (s.rows .typeDef)[i]? = some row → types[i]? = some t →
        t.Decodes s heaps.strings i row :=
  exists_mapM_range (h.rowCount .typeDef) fun _ row hi =>
    have hmem := List.mem_of_getElem? hi
    readType_of_holds h hs hi (hnamed.type row hmem) (hnamed.space row hmem)

/-! ## The stream and the root -/

/-- the tables of a stream are read as its rows -/
theorem readTables_of_holds (h : s.WellFormed) (hs : heaps.tables.Holds 0 s.bytes) (hnamed : s.Named heaps.strings)
    (version name : Text) :
    ∃ md, Metadata.readTables version name heaps = .ok md ∧ s.Decodes heaps.strings heaps.blobs md := by
  obtain ⟨methods, hmethods, hmcount, hm⟩ := readMethods_of_holds h hs hnamed
  obtain ⟨types, htypes, htcount, ht⟩ := readTypes_of_holds h hs hnamed
  refine ⟨⟨version, name, s.heapSizes, s.rowCounts, types.toArray, methods.toArray⟩, ?_, ?_⟩
  · exact bind_eq_ok_iff.2 ⟨_, read_of_holds h hs, bind_eq_ok_iff.2 ⟨_, hmethods, bind_eq_ok_iff.2 ⟨_, htypes, rfl⟩⟩⟩
  · exact ⟨rfl, rfl, hmcount, fun i row m hrow hi => hm i row m hrow (by simpa using hi), htcount,
      fun i row t hrow hi => ht i row t hrow (by simpa using hi)⟩

end TableStream

theorem Root.find?_of_firstStream {streams : List Stream} {names : List Text} {s : Stream}
    (h : FirstStream streams names s) : find? streams.toArray names = some s := by
  obtain ⟨hname, before, after, rfl, hbefore⟩ := h
  have hnone : before.find? (fun t => names.contains t.name) = none :=
    List.find?_eq_none.2 fun t ht hc => hbefore t ht (List.contains_iff_mem.1 hc)
  rw [find?, List.find?_toArray, List.find?_append, hnone, Option.none_or]
  exact List.find?_cons_of_pos (List.contains_iff_mem.2 hname)

/-- a mapped root is the one that is found -/
theorem locateRoot_of_mapped {file root : Bytes} {sections : List Pe.Section} {cliRva : Nat}
    (h : Root.Mapped file sections cliRva root) (hne : root ≠ #[]) : locateRoot file sections cliRva = .ok root := by
  obtain ⟨h0, hsize, cli, rva, offset, hcli, hrva, hentry, hoff, hroot⟩ := h
  refine locateRoot_eq_ok_iff.2 ⟨h0, cli, rva, root.size, offset, hcli, ?_, ?_, hoff, ?_⟩
  · exact Bytes.read?_of_holds_lt (by omega) hrva hentry.left
  · have := hentry.right
    rw [Bytes.length_toLE] at this
    exact Bytes.read?_of_holds_lt (by omega) hsize this
  · have := Bytes.slice?_of_holds hroot (by simpa using hne)
    simpa using this

end CilPatch.Metadata

/-! ## A small module -/

namespace CilPatch.Small

open Metadata

/-- a type `C` with the methods `F` and `G` -/
def tables : TableStream where
  heapSizes := 0
  present := 0x44
  rowCounts := [0, 0, 1, 0, 0, 0, 2] ++ List.replicate 57 0
  rows := fun
    | .typeDef => [[0, 1, 0, 0, 1, 1]]
    | .methodDef => [[0x1010, 0, 0x16, 3, 1, 1], [0x1020, 0, 6, 5, 5, 1]]
    | _ => []
  version := [0, 0, 0, 0, 2, 0]
  reserved := 1
  sorted := List.replicate 8 0
  extra := []

def strings : Text := [0] ++ Text.ascii "C" ++ [0] ++ Text.ascii "F" ++ [0] ++ Text.ascii "G" ++ [0]

/-- the signatures of `F`, which is static and returns an integer, and of `G`, which returns nothing -/
def blobs : List UInt8 := [0, 3, 0, 0, 8, 3, 0x20, 0, 1]

def streams : List Stream :=
  [⟨Text.ascii "#~", 72, 74⟩, ⟨Text.ascii "#Strings", 146, 7⟩, ⟨Text.ascii "#Blob", 153, 9⟩]

def start : List UInt8 := Bytes.toLE 4 0x424A5342 ++ [1, 0, 1, 0, 0, 0, 0, 0]

def directory : List UInt8 := Root.directory start (Text.ascii "v4") [0, 0] streams

def root : Bytes := (directory ++ (tables.bytes ++ (strings ++ blobs))).toArray

def sections : List Pe.Section := [⟨Text.ascii ".text", 0x400, 0x1000, 0x400, 344⟩]

/-- the DOS header, the PE headers and the section table -/
def headers : List UInt8 := List.flatten
  [Text.ascii "MZ", List.replicate 58 0, Bytes.toLE 4 64,
    Text.ascii "PE", [0, 0, 0x4C, 1, 1, 0], List.replicate 12 0, [216, 0, 0, 0],
    Bytes.toLE 2 0x10B, List.replicate 90 0, Bytes.toLE 4 15, List.replicate 112 0, Bytes.toLE 4 0x1000, Bytes.toLE 4 72,
    sections.flatMap Pe.Section.entry, List.replicate 16 0]

/-- the part of the CLI header that counts -/
def cli : List UInt8 := List.replicate 8 0 ++ Bytes.toLE 4 0x1040 ++ Bytes.toLE 4 162

/-- a tiny body of four bytes for `F` and a fat one for `G`, each with some room behind it -/
def bodies : List UInt8 :=
  [0x12, 0, 0, 0x16, 0x2A] ++ List.replicate 11 0
    ++ Bytes.toLE 2 0x3013 ++ Bytes.toLE 2 8 ++ Bytes.toLE 4 4 ++ Bytes.toLE 4 0 ++ [0, 0, 0, 0x2A] ++ List.replicate 16 0

def file : Bytes := (headers ++ (cli ++ (bodies ++ root.toList))).toArray

theorem length_headers : headers.length = 344 := by decide +kernel

theorem length_directory : directory.length = 72 := by decide

theorem length_tables : tables.bytes.length = 74 := by decide

theorem size_root : root.size = 162 := by
  simp only [root, List.size_toArray, List.length_append, length_directory, length_tables]
  rfl

/-! ### It is laid out -/

theorem tables_wellFormed : tables.WellFormed where
  heapSizes := by decide
  present := by decide
  count := rfl
  counts := by decide
  absent := by
    intro table h
    have hlisted : ∀ table, table < 64 → tables.present.testBit table = false → tables.count table = 0 := by decide
    rcases Nat.lt_or_ge table 64 with hlt | hge
    · exact hlisted table hlt h
    · rw [TableStream.count, List.getD_eq_getElem?_getD, List.getElem?_eq_none hge]
      rfl
  rowCount := by intro t; cases t <;> rfl
  fit := by intro t; cases t <;> decide
  version := rfl
  sorted := rfl
  extra := rfl

theorem root_laidOut : Root.LaidOut root start (Text.ascii "v4") [0, 0] streams where
  startLength := by decide
  versionLength := by decide
  flagsLength := by decide
  count := by decide
  each := by
    intro s hs
    simp only [streams, List.mem_cons, List.not_mem_nil, or_false] at hs
    rcases hs with rfl | rfl | rfl <;> exact ⟨by decide, by decide, by decide⟩
  inside := by
    simp only [Stream.Inside, size_root]
    decide
  holds := Bytes.holds_toArray [] directory (tables.bytes ++ strings ++ blobs) (by simp) rfl

theorem root_signature : root.Holds 0 (Bytes.toLE 4 0x424A5342) := by
  have h : root.Holds 0 directory :=
    Bytes.holds_toArray [] directory (tables.bytes ++ (strings ++ blobs)) rfl rfl
  exact h.left.left.left.left.left.left

/-- the headers and bodies of the small module map any root of that size -/
theorem mapped_of_size {r : Bytes} (hsize : r.size = 162) :
    Root.Mapped (headers ++ (cli ++ (bodies ++ r.toList))).toArray sections 0x1000 r := by
  have hentry : Bytes.Holds (headers ++ (cli ++ (bodies ++ r.toList))).toArray 352
      (Bytes.toLE 4 0x1040 ++ Bytes.toLE 4 162) :=
    Bytes.holds_toArray (headers ++ List.replicate 8 0) _ (bodies ++ r.toList) (by simp [cli])
      (by simp [length_headers])
  have hstop : (headers ++ cli ++ bodies).length = 408 := by
    rw [List.length_append, List.length_append, length_headers]
    rfl
  have hroot : Bytes.Holds (headers ++ (cli ++ (bodies ++ r.toList))).toArray 408 r.toList :=
    Bytes.holds_toArray (headers ++ cli ++ bodies) r.toList [] (by simp) hstop
  refine ⟨by decide, by rw [hsize]; decide, 344, 0x1040, 408, by decide, by decide, ?_, by decide, hroot⟩
  rw [hsize]
  exact hentry

theorem root_mapped : Root.Mapped file sections 0x1000 root := mapped_of_size size_root

theorem data_tables : (⟨Text.ascii "#~", 72, 74⟩ : Stream).data root = tables.bytes.toArray := by
  have h : root.Holds 72 tables.bytes :=
    Bytes.holds_toArray directory tables.bytes (strings ++ blobs) (by simp) length_directory
  exact Stream.data_of_holds h length_tables (List.ne_nil_of_length_eq_add_one length_tables)

theorem data_strings : (⟨Text.ascii "#Strings", 146, 7⟩ : Stream).data root = strings.toArray := by
  have h : root.Holds 146 strings := Bytes.holds_toArray (directory ++ tables.bytes) strings blobs (by simp)
    (by rw [List.length_append, length_directory, length_tables])
  exact Stream.data_of_holds h (by decide) (by decide)

theorem data_blobs : (⟨Text.ascii "#Blob", 153, 9⟩ : Stream).data root = blobs.toArray := by
  have hlength : (directory ++ tables.bytes ++ strings).length = 153 := by
    rw [List.length_append, List.length_append, length_directory, length_tables]
    rfl
  have h : root.Holds 153 blobs :=
    Bytes.holds_toArray (directory ++ tables.bytes ++ strings) blobs [] (by simp) hlength
  exact Stream.data_of_holds h (by decide) (by decide)

theorem tables_named : tables.Named strings.toArray where
  method := by
    intro row hrow index hindex
    have hrow : row = [0x1010, 0, 0x16, 3, 1, 1] ∨ row = [0x1020, 0, 6, 5, 5, 1] := by simpa [tables] using hrow
    rcases hrow with rfl | rfl
    · cases hindex
      exact ⟨Text.ascii "F", by decide, by decide⟩
    · cases hindex
      exact ⟨Text.ascii "G", by decide, by decide⟩
  type := by
    intro row hrow index hindex
    obtain rfl : row = [0, 1, 0, 0, 1, 1] := by simpa [tables] using hrow
    cases hindex
    exact ⟨Text.ascii "C", by decide, by decide⟩
  space := by
    intro row hrow index hindex
    obtain rfl : row = [0, 1, 0, 0, 1, 1] := by simpa [tables] using hrow
    cases hindex
    exact ⟨[], by decide, by decide⟩

/-! ### It opens -/

/-- what the headers of the file say -/
def image : { image : Pe.Image // Pe.Image.parse file = .ok image } :=
  ⟨⟨false, 0x14C, sections, ⟨0x1000, 72⟩⟩, by decide +kernel⟩

/-- what its metadata says -/
def metadata : { md : Metadata // Metadata.ofRoot root = .ok md } where
  val :=
    { version := Text.ascii "v4"
      tableStreamName := Text.ascii "#~"
      heapSizes := 0
      rowCounts := tables.rowCounts
      types := #[⟨1, [], Text.ascii "C", [1, 2]⟩]
      methods := #[⟨1, 0x1010, 0, 0x16, Text.ascii "F", some ⟨.managed, false, 0, 0, 8, .int32⟩⟩,
        ⟨2, 0x1020, 0, 6, Text.ascii "G", some ⟨.managed, true, 0, 0, 1, .void⟩⟩] }
  property := by
    have hsignature : root.u32? 0 = some 0x424A5342 := Bytes.read?_of_holds_lt (by omega) (by decide) root_signature
    have htables : Root.find? streams.toArray Metadata.tableStreamNames = some ⟨Text.ascii "#~", 72, 74⟩ := by decide
    have hstrings : Root.find? streams.toArray [Text.ascii "#Strings"] = some ⟨Text.ascii "#Strings", 146, 7⟩ := by
      decide
    have hblobs : Root.find? streams.toArray [Text.ascii "#Blob"] = some ⟨Text.ascii "#Blob", 153, 9⟩ := by decide
    have hname : Root.lastNameAt streams.toArray ⟨Text.ascii "#~", 72, 74⟩ = Text.ascii "#~" := by decide
    simp only [Metadata.ofRoot, Root.readDirectory_of_laidOut root_laidOut, htables, hstrings, hblobs, data_tables,
      data_strings, data_blobs, hname]
    rw [if_neg (not_not.2 hsignature)]
    decide +kernel

/-- what the file opens as -/
def opened : Module := ⟨file, Module.inMemory, image, metadata⟩

theorem ofBytes_file : Module.ofBytes file Module.inMemory = .ok opened := by
  have hne : root ≠ #[] := by
    intro e
    have := size_root
    rw [e] at this
    cases this
  have hroot := locateRoot_of_mapped root_mapped hne
  exact Module.ofBytes_eq_ok_iff.2
    ⟨rfl, rfl, image.2, Metadata.parse_eq_ok_iff.2 ⟨root, hroot, metadata.2⟩⟩

end CilPatch.Small

/-! ## Main result -/

namespace CilPatch.Metadata

/-- **Laid out tables are read as their rows.** A well-formed table stream is the first of its kind in a mapped root that
has both heaps, and every name column holds the index of a string: then reading succeeds, and the methods and types
are the rows of their tables. -/
theorem parse_of_laidOut {file root : Bytes} {sections : List Pe.Section} {cliRva : Nat} {start flags : List UInt8}
    {version : Text} {streams : List Stream} {tables strings blobs : Stream} {s : TableStream}
    (hmapped : Root.Mapped file sections cliRva root) (hsignature : root.Holds 0 (Bytes.toLE 4 0x424A5342))
    (hroot : Root.LaidOut root start version flags streams)
    (htables : Root.FirstStream streams tableStreamNames tables)
    (hstrings : Root.FirstStream streams [Text.ascii "#Strings"] strings)
    (hblobs : Root.FirstStream streams [Text.ascii "#Blob"] blobs)
    (hs : s.WellFormed) (hholds : (tables.data root).Holds 0 s.bytes) (hnamed : s.Named (strings.data root)) :
    ∃ md, Metadata.parse file sections cliRva = .ok md ∧ s.Decodes (strings.data root) (blobs.data root) md := by
  have hsig : root.u32? 0 = some 0x424A5342 := Bytes.read?_of_holds_lt (by omega) (by decide) hsignature
  have hne : root ≠ #[] := by
    intro e
    subst e
    simp [Bytes.u32?, Bytes.read?] at hsig
  let heaps : Heaps := ⟨tables.data root, strings.data root, blobs.data root⟩
  have hheaps : heaps.tables.Holds 0 s.bytes := hholds
  obtain ⟨md, hmd, hdecodes⟩ := TableStream.readTables_of_holds hs hheaps hnamed (Root.version root)
    (Root.lastNameAt streams.toArray tables)
  refine ⟨md, parse_eq_ok_iff.2 ⟨root, locateRoot_of_mapped hmapped hne, ?_⟩, hdecodes⟩
  simp only [ofRoot, Root.readDirectory_of_laidOut hroot, Root.find?_of_firstStream htables,
    Root.find?_of_firstStream hstrings, Root.find?_of_firstStream hblobs]
  rw [if_neg (not_not.2 hsig)]
  exact hmd

/-- the small module is read this way -/
theorem parse_small : ∃ md, Metadata.parse Small.file Small.sections 0x1000 = .ok md ∧
    Small.tables.Decodes ((⟨Text.ascii "#Strings", 146, 7⟩ : Stream).data Small.root)
      ((⟨Text.ascii "#Blob", 153, 9⟩ : Stream).data Small.root) md :=
  parse_of_laidOut Small.root_mapped Small.root_signature Small.root_laidOut
    ⟨by decide, [], _, rfl, by simp⟩ ⟨by decide, [⟨Text.ascii "#~", 72, 74⟩], _, rfl, by decide⟩
    ⟨by decide, [⟨Text.ascii "#~", 72, 74⟩, ⟨Text.ascii "#Strings", 146, 7⟩], _, rfl, by decide⟩
    Small.tables_wellFormed (Small.data_tables ▸ Bytes.holds_toArray [] Small.tables.bytes [] (by simp) rfl)
    (Small.data_strings ▸ Small.tables_named)

end CilPatch.Metadata
