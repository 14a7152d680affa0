/-
Types share the method list between them.

`parse_sharesMethods` is the main result: in metadata that was read, every type has a run of positions of the method
list and owns the methods that are listed there. When no type starts before the one in front of it, the runs follow
one another, and together they are the list from the first start on.

- `flatMap_between`, `existsUnique_between`: runs between starts that never go back;
- `listStart_eq`, `listStart_mono`: where the runs of a table stream start;
- `listed?_eq`: which method the reader takes from a position.
-/
import Mathlib.Tactic
import CilPatch.Proofs.Opening
import CilPatch.Proofs.Rows
import CilPatch.Proofs.TableBounds

namespace CilPatch.Metadata

/-! ## Runs that follow one another -/

namespace Run

variable {start : Nat → Nat}

/-- the positions from one start up to the next one, none when that goes back -/
def between (start : Nat → Nat) (i : Nat) : Run := ⟨start i, max (start i) (start (i + 1))⟩

theorem positions_between (start : Nat → Nat) (i : Nat) :
    (between start i).positions = List.range' (start i) (start (i + 1) - start i) := by
  simp only [positions, between]
  congr 1
  omega

theorem mem_positions_between {i position : Nat} :
    position ∈ (between start i).positions ↔ start i ≤ position ∧ position < start (i + 1) := by
  rw [positions_between, List.mem_range'_1]
  omega

theorem getElem?_map_between {n i : Nat} {r : Run} :
    ((List.range n).map (between start))[i]? = some r ↔ i < n ∧ between start i = r := by
  rw [List.getElem?_map, Option.map_eq_some_iff]
  refine ⟨?_, ?_⟩
  · rintro ⟨k, hk, rfl⟩
    obtain ⟨hlt, rfl⟩ := List.getElem?_eq_some_iff.1 hk
    rw [List.length_range] at hlt
    rw [List.getElem_range]
    exact ⟨hlt, rfl⟩
  · rintro ⟨hlt, rfl⟩
    exact ⟨i, List.getElem?_range hlt, rfl⟩

/-- runs between starts that never go back are one run together -/
theorem flatMap_between (h : Monotone start) (n : Nat) :
    ((List.range n).map (between start)).flatMap positions = List.range' (start 0) (start n - start 0) := by
  induction n with
  | zero => simp
  | succ n ih =>
    have hn : start 0 ≤ start n := h (Nat.zero_le n)
    have hnext : start n ≤ start (n + 1) := h (Nat.le_succ n)
    calc ((List.range (n + 1)).map (between start)).flatMap positions
      _ = List.range' (start 0) (start n - start 0) ++ List.range' (start n) (start (n + 1) - start n) := by
        rw [List.range_succ, List.map_append, List.flatMap_append, ih]
        simp [positions_between]
      _ = List.range' (start 0) (start n - start 0)
            ++ List.range' (start 0 + (start n - start 0)) (start (n + 1) - start n) := by
        rw [Nat.add_sub_cancel' hn]
      _ = List.range' (start 0) (start (n + 1) - start 0) := by
        rw [List.range'_append_1]
        congr 1
        omega

/-- and every position of it is in one of them only -/
theorem existsUnique_between (h : Monotone start) {n position : Nat} (hfirst : start 0 ≤ position)
    (hlast : position < start n) :
    ∃! i : Nat, ∃ r : Run, ((List.range n).map (between start))[i]? = some r ∧ position ∈ r.positions := by
  -- the last start that is not behind the position
  have hexists : ∃ i < n, start i ≤ position ∧ position < start (i + 1) := by
    induction n with
    | zero => exact absurd hlast (Nat.not_lt.2 hfirst)
    | succ n ih =>
      rcases Nat.lt_or_ge position (start n) with hlt | hge
      · obtain ⟨i, hi, hin⟩ := ih hlt
        exact ⟨i, by omega, hin⟩
      · exact ⟨n, by omega, hge, hlast⟩
  obtain ⟨i, hi, hin⟩ := hexists
  refine ⟨i, ⟨between start i, getElem?_map_between.2 ⟨hi, rfl⟩, mem_positions_between.2 hin⟩, ?_⟩
  rintro j ⟨r, hr, hposition⟩
  obtain ⟨-, rfl⟩ := getElem?_map_between.1 hr
  obtain ⟨hge, hlt⟩ := mem_positions_between.1 hposition
  rcases Nat.lt_trichotomy i j with hij | rfl | hji
  · have : start (i + 1) ≤ start j := h hij
    omega
  · rfl
  · have : start (j + 1) ≤ start i := h hji
    omega

end Run

/-! ## Positions of the method list -/

theorem clampPosition_bounds (length value : Nat) :
    1 ≤ clampPosition length value ∧ clampPosition length value ≤ length + 1 := by
  rw [clampPosition]
  omega

theorem clampPosition_mono {length v w : Nat} (h : v ≤ w) : clampPosition length v ≤ clampPosition length w := by
  rw [clampPosition, clampPosition]
  omega

namespace Heaps

variable {h : Heaps} {l : Layout}

/-- where the run of type `i` starts -/
def runStart (h : Heaps) (l : Layout) (i : Nat) : Nat := h.listStart l l.columns (l.offset .typeDef) i

/-- the start of a type is the number in its last column, clamped to the list -/
theorem runStart_eq (hfits : l.stop ≤ h.tables.size) {i : Nat} (hi : i < l.rows .typeDef) :
    ∃ v, l.methodList? h.tables i = some v ∧ h.runStart l i = clampPosition l.listLength v := by
  have hcolumn : ((l.widths .typeDef).take 5).sum = Layout.methodListColumn l.columns :=
    (Columns.methodListColumn_ofCounts l.heapSizes l.count).symm
  have hwidth : (l.widths .typeDef)[5]? = some l.columns.methodDef := by
    rw [l.columns_eq]
    rfl
  refine ⟨_, Layout.cell?_eq hfits hi hwidth, ?_⟩
  rw [runStart, listStart, if_neg (Nat.not_le.2 hi), hcolumn]

theorem runStart_of_le {i : Nat} (hi : l.rows .typeDef ≤ i) : h.runStart l i = l.listLength + 1 := if_pos hi

theorem runStart_bounds (h : Heaps) (l : Layout) (i : Nat) :
    1 ≤ h.runStart l i ∧ h.runStart l i ≤ l.listLength + 1 := by
  rw [runStart, listStart]
  split
  · omega
  · exact clampPosition_bounds _ _

/-- starts that ascend in the table do so when they are clamped -/
theorem runStart_mono (hfits : l.stop ≤ h.tables.size) (hasc : l.Ascending h.tables) : Monotone (h.runStart l) := by
  refine monotone_nat_of_le_succ ?_
  intro i
  rcases Nat.lt_or_ge (i + 1) (l.rows .typeDef) with hlt | hge
  · obtain ⟨v, hv, hstart⟩ := runStart_eq hfits (Nat.lt_of_succ_lt hlt)
    obtain ⟨w, hw, hnext⟩ := runStart_eq hfits hlt
    rw [hstart, hnext]
    exact clampPosition_mono (hasc i v w hv hw)
  · rw [runStart_of_le hge]
    exact (h.runStart_bounds l i).2

/-- the method that the reader takes from a position is the one that is listed there -/
theorem listed?_eq (hfits : l.stop ≤ h.tables.size) {position : Nat} (hfirst : 1 ≤ position)
    (hlast : position ≤ l.listLength) : l.listed? h.tables position = some (rowAt (h.methodPtrs l) position) := by
  have hsize : (h.methodPtrs l).size = l.rows .methodPtr := by simp [methodPtrs]
  rw [Layout.listed?, rowAt]
  rcases Nat.eq_zero_or_pos (l.rows .methodPtr) with hzero | hpos
  · have hempty : (h.methodPtrs l).isEmpty = true := by simpa [← Array.size_eq_zero_iff, hsize] using hzero
    rw [if_pos hzero, if_pos hempty]
  · have hempty : ¬ (h.methodPtrs l).isEmpty = true := by
      simp [← Array.size_eq_zero_iff, hsize]
      omega
    have hlength : l.listLength = l.rows .methodPtr := if_pos (by omega)
    have hrow : position - 1 < l.rows .methodPtr := by omega
    have hwidth : (l.widths .methodPtr)[0]? = some l.columns.methodDef := by
      rw [l.columns_eq]
      rfl
    rw [if_neg (by omega), if_neg hempty, Layout.cell?_eq hfits hrow hwidth]
    simp [methodPtrs, Array.getD_eq_getD_getElem?, hrow]

theorem positions_eq (h : Heaps) (l : Layout) (i : Nat) :
    h.positions l l.columns (l.offset .typeDef) i = (Run.between (h.runStart l) i).positions :=
  (Run.positions_between _ i).symm

/-! ## Types -/

/-- the run of type `i` -/
def run (h : Heaps) (l : Layout) (i : Nat) : Run := Run.between (h.runStart l) i

theorem run_within (h : Heaps) (l : Layout) (i : Nat) :
    1 ≤ (h.run l i).first ∧ (h.run l i).first ≤ (h.run l i).stop ∧ (h.run l i).stop ≤ l.listLength + 1 := by
  have hfirst := h.runStart_bounds l i
  have hnext := h.runStart_bounds l (i + 1)
  simp only [run, Run.between]
  omega

theorem methodRows_of_readType {c : Columns} {ptrs : Array Nat} {base i : Nat} {t : TypeEntry}
    (e : h.readType l c ptrs base i = .ok t) : t.methodRows = (h.positions l c base i).map (rowAt ptrs) := by
  unfold readType at e
  dsimp only at e
  split at e
  · cases e
    rfl
  · cases e

/-- a type has the methods that are listed in its run -/
theorem methodRows_eq_listed (hfits : l.stop ≤ h.tables.size) {i : Nat} {t : TypeEntry}
    (e : h.readType l l.columns (h.methodPtrs l) (l.offset .typeDef) i = .ok t) :
    t.methodRows.map some = (h.run l i).positions.map (l.listed? h.tables) := by
  rw [methodRows_of_readType e, positions_eq, List.map_map]
  refine List.map_congr_left ?_
  intro position hposition
  obtain ⟨hge, hlt⟩ := Run.mem_positions_between.1 hposition
  have hfirst := h.runStart_bounds l i
  have hnext := h.runStart_bounds l (i + 1)
  exact (listed?_eq hfits (by omega) (by omega)).symm

end Heaps

theorem readTables_eq_ok_iff {version name : Text} {h : Heaps} {md : Metadata} :
    readTables version name h = .ok md ↔ ∃ l methods types, Layout.read h.tables = .ok l ∧
      h.readMethods l = .ok methods ∧ h.readTypes l = .ok types ∧
      md = ⟨version, name, l.heapSizes, l.rowCounts, types.toArray, methods.toArray⟩ := by
  unfold readTables
  simp only [bind_eq_ok_iff]
  refine ⟨fun e => ?_, fun e => ?_⟩
  · obtain ⟨l, hl, methods, hmethods, types, htypes, e⟩ := e
    cases e
    exact ⟨l, methods, types, hl, hmethods, htypes, rfl⟩
  · obtain ⟨l, methods, types, hl, hmethods, htypes, rfl⟩ := e
    exact ⟨l, hl, methods, hmethods, types, htypes, rfl⟩

/-- the types that are read from a table stream share its method list -/
theorem sharesMethods_of_readTypes {version name : Text} {h : Heaps} {l : Layout} {methods : Array MethodRow}
    {types : List TypeEntry} (hfits : l.stop ≤ h.tables.size) (htypes : h.readTypes l = .ok types) :
    SharesMethods ⟨version, name, l.heapSizes, l.rowCounts, types.toArray, methods⟩ l h.tables
      ((List.range (l.rows .typeDef)).map (h.run l)) where
  rowCounts := rfl
  types := (mapM_range_eq_ok_iff.1 htypes).1
  count := by
    obtain ⟨hlength, -⟩ := mapM_range_eq_ok_iff.1 htypes
    simp [hlength]
  within := by
    intro r hr
    obtain ⟨i, -, rfl⟩ := List.mem_map.1 hr
    exact h.run_within l i
  methodRows := by
    intro i t r ht hr
    obtain ⟨-, hall⟩ := mapM_range_eq_ok_iff.1 htypes
    obtain ⟨-, rfl⟩ := Run.getElem?_map_between.1 hr
    exact Heaps.methodRows_eq_listed hfits (hall i t (by simpa using ht))
  abut := by
    intro hasc i r s hr hs
    obtain ⟨-, rfl⟩ := Run.getElem?_map_between.1 hr
    obtain ⟨-, rfl⟩ := Run.getElem?_map_between.1 hs
    exact max_eq_right (Heaps.runStart_mono hfits hasc (Nat.le_succ i))
  whole := by
    intro hasc hpos
    have hmono := Heaps.runStart_mono hfits hasc
    have hrows : 0 < l.rows .typeDef := lt_of_lt_of_eq hpos (mapM_range_eq_ok_iff.1 htypes).1
    obtain ⟨start, hstart, hfirst⟩ := Heaps.runStart_eq hfits hrows
    -- the run behind the last type would start behind the list
    have hlast : h.runStart l (l.rows .typeDef) = l.listLength + 1 := Heaps.runStart_of_le le_rfl
    rw [clampPosition] at hfirst
    refine ⟨start, hstart, ?_, ?_⟩
    · rw [← hfirst, ← hlast]
      exact Run.flatMap_between hmono _
    · intro position hge hle
      have hbehind : position < h.runStart l (l.rows .typeDef) := by omega
      exact Run.existsUnique_between hmono (by omega) hbehind

/-! ## Main result -/

/-- **No method is lost or owned twice.** Every type of metadata that was read has a run of positions of the method list
of its table stream, and its methods are those that are listed there. When the starts in the table ascend, every run
ends where the next one begins, and every position from the first start on is in the run of one type. -/
theorem parse_sharesMethods (file : Bytes) (sections : List Pe.Section) (cliRva : Nat) (md : Metadata)
    (h : parse file sections cliRva = .ok md) :
    ∃ root name heaps l runs, locateRoot file sections cliRva = .ok root ∧ Root.readHeaps root = .ok (name, heaps) ∧
      Layout.read heaps.tables = .ok l ∧ SharesMethods md l heaps.tables runs := by
  obtain ⟨root, hroot, hmd⟩ := parse_eq_ok_iff.1 h
  rw [ofRoot_eq, bind_eq_ok_iff] at hmd
  obtain ⟨⟨name, heaps⟩, hheaps, hmd⟩ := hmd
  obtain ⟨l, methods, types, hl, -, htypes, rfl⟩ := readTables_eq_ok_iff.1 hmd
  have hfits := Layout.stop_le_of_read hl
  exact ⟨root, name, heaps, l, _, hroot, hheaps, hl, sharesMethods_of_readTypes hfits htypes⟩

end CilPatch.Metadata

/-! ### Two types whose methods are listed through pointers -/

namespace CilPatch.Small

open Metadata

/-- of the three positions of the method list, the first two belong to the type `A` and the last one to `B`; the method
pointers there lead to the third, the first and the second method -/
def pairTables : TableStream :=
  { tables with
    present := 0x64
    rowCounts := [0, 0, 2, 0, 0, 3, 3] ++ List.replicate 57 0
    rows := fun
      | .typeDef => [[0, 1, 0, 0, 1, 1], [0, 3, 0, 0, 1, 3]]
      | .methodPtr => [[3], [1], [2]]
      | .methodDef => [[0x1010, 0, 6, 1, 0, 1], [0x1020, 0, 6, 1, 0, 1], [0x1030, 0, 6, 3, 0, 1]]
      | _ => [] }

def pairStrings : Text := [0] ++ Text.ascii "A" ++ [0] ++ Text.ascii "B" ++ [0]

def pairHeaps : Heaps := ⟨pairTables.bytes.toArray, pairStrings.toArray, #[0]⟩

def pairStreams : List Stream :=
  [⟨Text.ascii "#-", 72, 112⟩, ⟨Text.ascii "#Strings", 184, 5⟩, ⟨Text.ascii "#Blob", 189, 1⟩]

def pairDirectory : List UInt8 := Root.directory start (Text.ascii "v4") [0, 0] pairStreams

def pairRoot : Bytes := (pairDirectory ++ (pairTables.bytes ++ (pairStrings ++ [0]))).toArray

/-- the part of the CLI header that counts -/
def pairCli : List UInt8 := List.replicate 8 0 ++ (Bytes.toLE 4 0x1010 ++ Bytes.toLE 4 190)

def pairFile : Bytes := (pairCli ++ pairRoot.toList).toArray

def pairSections : List Pe.Section := [⟨Text.ascii ".text", 0x400, 0x1000, 0x400, 0⟩]

theorem length_pairDirectory : pairDirectory.length = 72 := by decide

theorem length_pairTables : pairTables.bytes.length = 112 := by decide

theorem size_pairRoot : pairRoot.size = 190 := by
  simp only [pairRoot, List.size_toArray, List.length_append, length_pairDirectory, length_pairTables]
  rfl

theorem pairRoot_laidOut : Root.LaidOut pairRoot start (Text.ascii "v4") [0, 0] pairStreams where
  startLength := by decide
  versionLength := by decide
  flagsLength := by decide
  count := by decide
  each := by
    intro s hs
    simp only [pairStreams, List.mem_cons, List.not_mem_nil, or_false] at hs
    rcases hs with rfl | rfl | rfl <;> exact ⟨by decide, by decide, by decide⟩
  inside := by
    simp only [Stream.Inside, size_pairRoot]
    decide
  holds := Bytes.holds_toArray [] pairDirectory (pairTables.bytes ++ (pairStrings ++ [0])) rfl rfl

theorem locateRoot_pairFile : locateRoot pairFile pairSections 0x1000 = .ok pairRoot := by
  have hentry : pairFile.Holds 8 (Bytes.toLE 4 0x1010 ++ Bytes.toLE 4 190) :=
    Bytes.holds_toArray (List.replicate 8 0) _ pairRoot.toList (by simp [pairCli]) rfl
  have hroot : pairFile.Holds 16 pairRoot.toList := Bytes.holds_toArray pairCli pairRoot.toList [] (by simp) rfl
  refine locateRoot_of_mapped ⟨by decide, by rw [size_pairRoot]; decide, 0, 0x1010, 16, by decide, by decide, ?_,
    by decide, hroot⟩ (Array.ne_empty_of_size_pos (by rw [size_pairRoot]; decide))
  rw [size_pairRoot]
  exact hentry

theorem data_pairTables : (⟨Text.ascii "#-", 72, 112⟩ : Stream).data pairRoot = pairTables.bytes.toArray :=
  Stream.data_of_holds
    (Bytes.holds_toArray pairDirectory pairTables.bytes (pairStrings ++ [0]) (by simp) length_pairDirectory)
    length_pairTables (List.ne_nil_of_length_eq_add_one length_pairTables)

theorem data_pairStrings : (⟨Text.ascii "#Strings", 184, 5⟩ : Stream).data pairRoot = pairStrings.toArray :=
  Stream.data_of_holds (Bytes.holds_toArray (pairDirectory ++ pairTables.bytes) pairStrings [0] (by simp)
    (by rw [List.length_append, length_pairDirectory, length_pairTables])) (by decide) (by decide)

theorem data_pairBlobs : (⟨Text.ascii "#Blob", 189, 1⟩ : Stream).data pairRoot = #[0] :=
  Stream.data_of_holds (Bytes.holds_toArray (pairDirectory ++ pairTables.bytes ++ pairStrings) [0] [] (by simp)
    (by rw [List.length_append, List.length_append, length_pairDirectory, length_pairTables]; rfl))
    (by decide) (by decide)

theorem readHeaps_pairRoot : Root.readHeaps pairRoot = .ok (Text.ascii "#-", pairHeaps) := by
  have hsignature : pairRoot.u32? 0 = some 0x424A5342 :=
    Bytes.read?_of_holds_lt (by omega) (by decide) pairRoot_laidOut.holds.left.left.left.left.left.left
  have htables : Root.find? pairStreams.toArray Metadata.tableStreamNames = some ⟨Text.ascii "#-", 72, 112⟩ := by
    decide
  have hstrings : Root.find? pairStreams.toArray [Text.ascii "#Strings"] = some ⟨Text.ascii "#Strings", 184, 5⟩ := by
    decide
  have hblobs : Root.find? pairStreams.toArray [Text.ascii "#Blob"] = some ⟨Text.ascii "#Blob", 189, 1⟩ := by decide
  rw [Root.readHeaps, if_neg (not_not.2 hsignature)]
  simp only [Root.readDirectory_of_laidOut pairRoot_laidOut, htables, hstrings, hblobs, data_pairTables,
    data_pairStrings, data_pairBlobs]
  rfl

def pairMetadata : { md : Metadata // Metadata.parse pairFile pairSections 0x1000 = .ok md } where
  val :=
    { version := Text.ascii "v4"
      tableStreamName := Text.ascii "#-"
      heapSizes := 0
      rowCounts := pairTables.rowCounts
      types := #[⟨1, [], Text.ascii "A", [3, 1]⟩, ⟨2, [], Text.ascii "B", [2]⟩]
      methods := #[⟨1, 0x1010, 0, 6, Text.ascii "A", none⟩, ⟨2, 0x1020, 0, 6, Text.ascii "A", none⟩,
        ⟨3, 0x1030, 0, 6, Text.ascii "B", none⟩] }
  property := by
    refine Metadata.parse_eq_ok_iff.2 ⟨_, locateRoot_pairFile, ?_⟩
    rw [ofRoot_eq, readHeaps_pairRoot]
    decide +kernel

def pairLayout : { l : Layout // Layout.read pairHeaps.tables = .ok l } :=
  ⟨⟨0, pairTables.rowCounts, 36⟩, by decide +kernel⟩

/-- `B` starts behind `A`, and no type stands behind it -/
theorem pairLayout_ascending : pairLayout.1.Ascending pairHeaps.tables := by
  intro i v w hv hw
  have hrows : pairLayout.1.rows .typeDef = 2 := rfl
  have hnext : i + 1 < 2 := by
    by_contra hge
    rw [Layout.methodList?, Layout.cell?, if_neg (hrows ▸ hge)] at hw
    cases hw
  obtain rfl : i = 0 := by omega
  have hfirst : pairLayout.1.methodList? pairHeaps.tables 0 = some 1 := by decide +kernel
  have hsecond : pairLayout.1.methodList? pairHeaps.tables 1 = some 3 := by decide +kernel
  obtain rfl : 1 = v := Option.some.inj (hfirst.symm.trans hv)
  obtain rfl : 3 = w := Option.some.inj (hsecond.symm.trans hw)
  decide

end CilPatch.Small

namespace CilPatch.Metadata

/-- the run of `A` ends where that of `B` begins, and together they are the whole list -/
theorem parse_sharesMethods_small :
    ∃ root name heaps l r s, locateRoot Small.pairFile Small.pairSections 0x1000 = .ok root ∧
      Root.readHeaps root = .ok (name, heaps) ∧ Layout.read heaps.tables = .ok l ∧
      SharesMethods Small.pairMetadata.1 l heaps.tables [r, s] ∧ l.Ascending heaps.tables ∧
      r.stop = s.first ∧ r.positions = [1, 2] ∧ s.positions = [3] := by
  obtain ⟨root, name, heaps, l, runs, hroot, hheaps, hl, hruns⟩ := parse_sharesMethods _ _ _ _ Small.pairMetadata.2
  obtain rfl : Small.pairRoot = root := Except.ok.inj (Small.locateRoot_pairFile.symm.trans hroot)
  obtain ⟨rfl, rfl⟩ : Text.ascii "#-" = name ∧ Small.pairHeaps = heaps :=
    Prod.mk.inj (Except.ok.inj (Small.readHeaps_pairRoot.symm.trans hheaps))
  obtain rfl : Small.pairLayout.1 = l := Except.ok.inj (Small.pairLayout.2.symm.trans hl)
  obtain ⟨r, s, rfl⟩ := List.length_eq_two.1 hruns.count
  have hasc := Small.pairLayout_ascending
  have hlength : r.positions.length = 2 := by
    have := congrArg List.length (hruns.methodRows 0 ⟨1, [], Text.ascii "A", [3, 1]⟩ r rfl rfl)
    rw [List.length_map, List.length_map] at this
    exact this.symm
  have hlist : Small.pairLayout.1.listLength = 3 := rfl
  have hstart : Small.pairLayout.1.methodList? Small.pairHeaps.tables 0 = some 1 := by decide +kernel
  obtain ⟨first, hfirst, hwhole, -⟩ := hruns.whole hasc (by decide)
  obtain rfl : 1 = first := Option.some.inj (hstart.symm.trans hfirst)
  have happend : r.positions ++ s.positions = [1, 2] ++ [3] := by simpa [hlist, List.range'] using hwhole
  obtain ⟨hr, hs⟩ := List.append_inj happend hlength
  exact ⟨_, _, _, _, r, s, hroot, hheaps, hl, hruns, hasc, hruns.abut hasc 0 r s rfl rfl, hr, hs⟩

end CilPatch.Metadata
