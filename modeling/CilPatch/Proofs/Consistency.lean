/-
What holds of all metadata that was read, whatever the file.

Lookup goes by row numbers and by names, and checks neither: a descriptor is made of whatever stands in the row. So the
reader has to leave the tables in order for every file that it lets through, also for a malformed one.

- `Bytes.zero_notMem_of_cstring?`: a string that is read has no NUL;
- `Layout.readCounts?_absent`: a table that is not there has no rows;
- `Heaps.readMethod_eq_ok`, `Heaps.readType_eq_ok`: one row of either table;
- `parse_consistent`: the invariant, over both tables and the method lists.
-/
import CilPatch.Proofs.MethodLists

namespace CilPatch

open Metadata (TypeEntry)

/-- the bytes before the terminator are none themselves -/
theorem Bytes.zero_notMem_of_cstring? {b : Bytes} {off : Nat} {t : Text} (h : b.cstring? off = some t) : 0 ∉ t := by
  obtain ⟨stop, hstop, rfl⟩ := cstring?_eq_some_iff.1 h
  obtain ⟨-, -, hbefore⟩ := terminator?_eq_some_iff.1 hstop
  intro hmem
  obtain ⟨i, hi⟩ := List.mem_iff_getElem?.1 hmem
  rw [Array.getElem?_toList, Array.getElem?_extract] at hi
  split_ifs at hi with hlt
  exact hbefore (off + i) (Nat.le_add_right _ _) (by omega) hi

namespace Metadata

/-! ## Row counts -/

/-- every table has a count, which is zero for one that is not there -/
theorem Layout.readCounts?_absent {stream : Bytes} {present : Nat} {tables counts : List Nat} {pos stop : Nat}
    (h : readCounts? stream present tables pos = some (counts, stop)) : counts.length = tables.length ∧
      ∀ (i table : Nat), tables[i]? = some table → present.testBit table = false → counts[i]? = some 0 := by
  induction tables generalizing pos counts with
  | nil =>
    cases h
    simp
  | cons table tables ih =>
    rw [readCounts?] at h
    split at h
    · rename_i hpresent
      simp only [Option.bind_eq_bind, Option.bind_eq_some_iff] at h
      obtain ⟨n, -, ⟨rest, last⟩, hrest, h⟩ := h
      cases h
      obtain ⟨hlength, hzero⟩ := ih hrest
      refine ⟨congrArg (· + 1) hlength, ?_⟩
      rintro (_ | i) other hi habsent
      · cases hi
        exact absurd hpresent (by rw [habsent]; exact Bool.false_ne_true)
      · exact hzero i other hi habsent
    · simp only [Option.bind_eq_bind, Option.bind_eq_some_iff] at h
      obtain ⟨⟨rest, last⟩, hrest, h⟩ := h
      cases h
      obtain ⟨hlength, hzero⟩ := ih hrest
      refine ⟨congrArg (· + 1) hlength, ?_⟩
      rintro (_ | i) other hi habsent
      · rfl
      · exact hzero i other hi habsent

theorem Layout.getElem?_rowCounts {l : Layout} (h : l.rowCounts.length = 64) (t : Table) :
    l.rowCounts[t.number]? = some (l.rows t) := by
  have hlt : t.number < l.rowCounts.length := by
    rw [h]
    cases t <;> decide
  rw [rows, count, List.getD_eq_getElem?_getD, List.getElem?_eq_getElem hlt]
  rfl

/-! ## Rows -/

namespace Heaps

variable {h : Heaps} {l : Layout} {c : Columns}

theorem zero_notMem_of_string? {off : Nat} {t : Text} (e : h.string? c off = some t) : 0 ∉ t := by
  rw [string?, Option.bind_eq_bind, Option.bind_eq_some_iff] at e
  obtain ⟨index, -, hname⟩ := e
  exact Bytes.zero_notMem_of_cstring? hname

theorem readMethod_eq_ok {i off : Nat} {r : MethodRow} (e : h.readMethod c i off = .ok r) :
    r.row = i + 1 ∧ 0 ∉ r.name := by
  unfold readMethod at e
  split at e
  · rename_i name blob hname hblob
    cases e
    exact ⟨rfl, zero_notMem_of_string? hname⟩
  · cases e

theorem readType_eq_ok {ptrs : Array Nat} {base i : Nat} {t : TypeEntry} (e : h.readType l c ptrs base i = .ok t) :
    t.row = i + 1 ∧ 0 ∉ t.space ∧ 0 ∉ t.name := by
  unfold readType at e
  dsimp only at e
  split at e
  · rename_i name space hname hspace
    cases e
    exact ⟨rfl, zero_notMem_of_string? hspace, zero_notMem_of_string? hname⟩
  · cases e

/-- without method pointers the rows of a type are positions of the list, which are rows of the method table -/
theorem mem_methodRows (hfits : l.stop ≤ h.tables.size) (hdirect : l.rows .methodPtr = 0) {i row : Nat} {t : TypeEntry}
    (e : h.readType l l.columns (h.methodPtrs l) (l.offset .typeDef) i = .ok t) (hrow : row ∈ t.methodRows) :
    1 ≤ row ∧ row ≤ l.rows .methodDef := by
  have hlisted : l.listed? h.tables = some := funext fun position => if_pos hdirect
  have hlength : l.listLength = l.rows .methodDef := if_neg (not_not.2 hdirect)
  have hrows := methodRows_eq_listed hfits e
  rw [hlisted] at hrows
  rw [List.map_injective_iff.2 (Option.some_injective Nat) hrows, Run.positions, List.mem_range'_1] at hrow
  have hwithin := h.run_within l i
  omega

end Heaps

/-! ## Names -/

theorem TypeEntry.zero_notMem_fullName {t : TypeEntry} (hspace : 0 ∉ t.space) (hname : 0 ∉ t.name) :
    0 ∉ t.fullName := by
  have hdot : (0 : UInt8) ∉ Text.ascii "." := by decide
  unfold fullName
  split_ifs
  · exact hname
  · simp only [List.mem_append, not_or]
    exact ⟨⟨hspace, hdot⟩, hname⟩

/-! ## The invariant -/

/-- the tables are in order and the lookups may rely on them; `present` has a bit for each table that is there -/
structure Consistent (md : Metadata) (present : Nat) : Prop where
  count : md.rowCounts.length = 64
  absent : ∀ table, table < 64 → present.testBit table = false → md.rowCounts[table]? = some 0
  types : md.rowCounts[Table.number .typeDef]? = some md.types.size
  methods : md.rowCounts[Table.number .methodDef]? = some md.methods.size
  /-- rows are numbered from 1 on -/
  typeRow : ∀ (i : Nat) (t : TypeEntry), md.types[i]? = some t → t.row = i + 1
  methodRow : ∀ (i : Nat) (r : MethodRow), md.methods[i]? = some r → r.row = i + 1
  /-- a method is found by its row, and by no other number -/
  found : ∀ row, (md.method? row).isSome ↔ 1 ≤ row ∧ row ≤ md.methods.size
  row : ∀ row r, md.method? row = some r → r.row = row
  typeNames : ∀ t ∈ md.types, 0 ∉ t.space ∧ 0 ∉ t.name ∧ 0 ∉ t.fullName
  methodNames : ∀ r ∈ md.methods, 0 ∉ r.name
  fullName : ∀ t ∈ md.types, (t.space = [] → t.fullName = t.name) ∧
    (t.space ≠ [] → t.fullName = t.space ++ Text.ascii "." ++ t.name)
  /-- without method pointers every row that a type lists is there, so no method is left out of its enumeration -/
  resolved : md.rowCounts[Table.number .methodPtr]? = some 0 → ∀ t ∈ md.types,
    (∀ row ∈ t.methodRows, (md.method? row).isSome) ∧
      ∀ m : Module, m.metadata = md → (m.methods t).length = t.methodRows.length

theorem method?_isSome_iff (md : Metadata) (row : Nat) :
    (md.method? row).isSome ↔ 1 ≤ row ∧ row ≤ md.methods.size := by
  unfold method?
  split_ifs with h0
  · simp [h0]
  · rw [isSome_getElem?]
    omega

end Metadata

/-- an enumeration whose rows all resolve leaves none of them out -/
theorem Module.length_methods {m : Module} {t : TypeEntry} (h : ∀ row ∈ t.methodRows, (m.metadata.method? row).isSome) :
    (m.methods t).length = t.methodRows.length := by
  refine List.filterMap_length_eq_length.2 ?_
  intro row hrow
  rw [Option.isSome_map]
  exact h row hrow

namespace Metadata

/-- what is read from the streams of a root is consistent -/
theorem consistent_of_readTables {version name : Text} {h : Heaps} {md : Metadata}
    (e : readTables version name h = .ok md) : ∃ present, h.tables.u64? 8 = some present ∧ md.Consistent present := by
  obtain ⟨l, methods, types, hl, hmethods, htypes, rfl⟩ := readTables_eq_ok_iff.1 e
  obtain ⟨present, pos, -, hpresent, hcounts, -, hfits⟩ := Layout.read_eq_ok_iff.1 hl
  obtain ⟨hlength, habsent⟩ := Layout.readCounts?_absent hcounts
  rw [List.length_range] at hlength
  obtain ⟨hmethodCount, hmethodRows⟩ := mapM_range_eq_ok_iff.1 hmethods
  obtain ⟨htypeCount, htypeRows⟩ := mapM_range_eq_ok_iff.1 htypes
  -- each entry of the two arrays comes from the row at its position
  have hmethod (i : Nat) (r : MethodRow) (hi : methods.toArray[i]? = some r) : r.row = i + 1 ∧ 0 ∉ r.name :=
    Heaps.readMethod_eq_ok (hmethodRows i r (by simpa using hi))
  have htype (i : Nat) (t : TypeEntry) (hi : types.toArray[i]? = some t) : t.row = i + 1 ∧ 0 ∉ t.space ∧ 0 ∉ t.name :=
    Heaps.readType_eq_ok (htypeRows i t (by simpa using hi))
  have htypeNames (t : TypeEntry) (ht : t ∈ types.toArray) : 0 ∉ t.space ∧ 0 ∉ t.name := by
    obtain ⟨i, hi⟩ := Array.mem_iff_getElem?.1 ht
    exact (htype i t hi).2
  refine ⟨present, hpresent, ?_⟩
  let md : Metadata := ⟨version, name, l.heapSizes, l.rowCounts, types.toArray, methods.toArray⟩
  have hresolves (hdirect : l.rows .methodPtr = 0) (t : TypeEntry) (ht : t ∈ types.toArray) (row : Nat)
      (hrow : row ∈ t.methodRows) : (md.method? row).isSome := by
    obtain ⟨i, hi⟩ := Array.mem_iff_getElem?.1 ht
    rw [md.method?_isSome_iff]
    have := Heaps.mem_methodRows hfits hdirect (htypeRows i t (by simpa using hi)) hrow
    rw [← hmethodCount] at this
    exact this
  exact
    { count := hlength
      absent := fun table hlt hbit => habsent table table (List.getElem?_range hlt) hbit
      types := by rw [Layout.getElem?_rowCounts hlength, ← htypeCount]; rfl
      methods := by rw [Layout.getElem?_rowCounts hlength, ← hmethodCount]; rfl
      typeRow := fun i t hi => (htype i t hi).1
      methodRow := fun i r hi => (hmethod i r hi).1
      found := md.method?_isSome_iff
      row := by
        intro row r hr
        unfold method? at hr
        split_ifs at hr with h0
        have := (hmethod (row - 1) r hr).1
        omega
      typeNames := by
        intro t ht
        obtain ⟨hspace, hname⟩ := htypeNames t ht
        exact ⟨hspace, hname, TypeEntry.zero_notMem_fullName hspace hname⟩
      methodNames := by
        intro r hr
        obtain ⟨i, hi⟩ := Array.mem_iff_getElem?.1 hr
        exact (hmethod i r hi).2
      fullName := fun t _ => ⟨fun h => if_pos h, fun h => if_neg h⟩
      resolved := by
        intro hzero t ht
        rw [Layout.getElem?_rowCounts hlength] at hzero
        have hall := hresolves (Option.some.inj hzero) t ht
        refine ⟨hall, ?_⟩
        rintro m hm
        exact Module.length_methods (by rw [hm]; exact hall) }

/-- **All metadata that is read is consistent.** Whatever the file, the sections and the address of the CLI header: the
types and methods are as many as the row counts say, they are numbered by their position and found by that number only,
their names hold no NUL, tables that are not there have no rows, and without method pointers every method that a type
lists is there. -/
theorem parse_consistent (file : Bytes) (sections : List Pe.Section) (cliRva : Nat) (md : Metadata)
    (h : parse file sections cliRva = .ok md) : ∃ root name heaps present,
      locateRoot file sections cliRva = .ok root ∧ Root.readHeaps root = .ok (name, heaps) ∧
      heaps.tables.u64? 8 = some present ∧ md.Consistent present := by
  obtain ⟨root, hroot, hmd⟩ := parse_eq_ok_iff.1 h
  rw [ofRoot_eq, bind_eq_ok_iff] at hmd
  obtain ⟨⟨name, heaps⟩, hheaps, hmd⟩ := hmd
  obtain ⟨present, hpresent, hconsistent⟩ := consistent_of_readTables hmd
  exact ⟨root, name, heaps, present, hroot, hheaps, hpresent, hconsistent⟩

/-- both methods of the small module are enumerated -/
theorem parse_consistent_small : parse Small.file Small.sections 0x1000 = .ok Small.metadata.1 ∧
    ∃ root name heaps present, locateRoot Small.file Small.sections 0x1000 = .ok root ∧
      Root.readHeaps root = .ok (name, heaps) ∧ heaps.tables.u64? 8 = some present ∧
      Small.metadata.1.Consistent present ∧
      (Small.opened.methods ⟨1, [], Text.ascii "C", [1, 2]⟩).length = 2 := by
  have hparse : parse Small.file Small.sections 0x1000 = .ok Small.metadata.1 :=
    (Module.ofBytes_eq_ok_iff.1 Small.ofBytes_file).2.2.2
  obtain ⟨root, name, heaps, present, hroot, hheaps, hpresent, hconsistent⟩ := parse_consistent _ _ _ _ hparse
  obtain ⟨-, hmethods⟩ := hconsistent.resolved rfl ⟨1, [], Text.ascii "C", [1, 2]⟩ (by simp [Small.metadata])
  exact ⟨hparse, root, name, heaps, present, hroot, hheaps, hpresent, hconsistent, hmethods Small.opened rfl⟩

end Metadata

end CilPatch
