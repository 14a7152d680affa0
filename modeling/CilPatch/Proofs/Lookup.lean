/-
Lookup by name finds the first declaration, and agrees with the enumeration.

A type is looked up in the type table, and a method through the rows that its type lists. In an uncompressed stream
these rows come out of the method pointers, so they may be null, repeat each other or lie behind the end of the method
table. Lookup and enumeration each walk over them on their own, and have to pass over the same ones.

- `firstType_iff_lowest`: the first type with a name is that of the lowest row;
- `findMethod?_eq_find?`: a method is looked up as in the enumeration;
- `methods_describe`: the enumeration, row by row;
- `lookup_declared`: the main result, for every module that was opened.
-/
import CilPatch.Proofs.Consistency
import CilPatch.Proofs.Replacement

namespace CilPatch

open Metadata (TypeEntry MethodRow)

theorem MethodDescriptor.name_ofRow (typeName : Text) (row : MethodRow) : (ofRow typeName row).name = row.name := by
  unfold ofRow
  cases row.signature <;> rfl

namespace Module

variable {m : Module} {t : TypeEntry} {name : Text}

theorem consistent_of_ofBytes {b : Bytes} {origin : Text} (h : ofBytes b origin = .ok m) :
    ∃ present, m.metadata.Consistent present := by
  obtain ⟨-, -, -, hmetadata⟩ := ofBytes_eq_ok_iff.1 h
  obtain ⟨root, -, hmd⟩ := Metadata.parse_eq_ok_iff.1 hmetadata
  rw [Metadata.ofRoot_eq, bind_eq_ok_iff] at hmd
  obtain ⟨⟨streamName, heaps⟩, -, hmd⟩ := hmd
  obtain ⟨present, -, hconsistent⟩ := Metadata.consistent_of_readTables hmd
  exact ⟨present, hconsistent⟩

/-! ## Types -/

/-- the type has this full name, and no type with that name has a lower row -/
structure LowestType (m : Module) (name : Text) (t : TypeEntry) : Prop where
  declared : t ∈ m.metadata.types
  fullName : t.fullName = name
  lowest : ∀ u ∈ m.metadata.types, u.fullName = name → t.row ≤ u.row

/-- rows that are numbered by their position ascend -/
theorem pairwise_row (hrows : ∀ (i : Nat) (u : TypeEntry), m.metadata.types[i]? = some u → u.row = i + 1) :
    m.metadata.types.toList.Pairwise fun u v => u.row < v.row := by
  rw [List.pairwise_iff_getElem]
  intro i j hi hj hij
  rw [hrows i _ (by rw [← Array.getElem?_toList, List.getElem?_eq_getElem hi]),
    hrows j _ (by rw [← Array.getElem?_toList, List.getElem?_eq_getElem hj])]
  exact Nat.succ_lt_succ hij

theorem firstType_iff_lowest (hrows : ∀ (i : Nat) (u : TypeEntry), m.metadata.types[i]? = some u → u.row = i + 1) :
    m.FirstType name t ↔ m.LowestType name t := by
  have hascends := pairwise_row hrows
  constructor
  · rintro ⟨before, after, hsplit, hname, hbefore⟩
    rw [hsplit] at hascends
    obtain ⟨-, hbehind, -⟩ := List.pairwise_append.1 hascends
    refine ⟨Array.mem_toList_iff.1 (by simp [hsplit]), hname, fun u hu hsame => ?_⟩
    rw [← Array.mem_toList_iff, hsplit, List.mem_append, List.mem_cons] at hu
    rcases hu with hu | rfl | hu
    · exact absurd hsame (hbefore u hu)
    · exact le_rfl
    · exact ((List.pairwise_cons.1 hbehind).1 u hu).le
  · rintro ⟨hdeclared, hname, hlowest⟩
    obtain ⟨before, after, hsplit⟩ := List.append_of_mem (Array.mem_toList_iff.2 hdeclared)
    refine ⟨before, after, hsplit, hname, fun u hu hsame => ?_⟩
    rw [hsplit] at hascends
    obtain ⟨-, -, hfront⟩ := List.pairwise_append.1 hascends
    have hlt : u.row < t.row := hfront u hu t List.mem_cons_self
    have hle : t.row ≤ u.row := hlowest u (Array.mem_toList_iff.1 (by simp [hsplit, hu])) hsame
    exact absurd hle (not_le.2 hlt)

theorem findType?_eq_none_iff : m.findType? name = none ↔ ∀ u ∈ m.metadata.types, u.fullName ≠ name := by
  simp [findType?]

/-! ## Methods -/

/-- the descriptor is the first one of the list with this name -/
def FirstNamed (ds : List MethodDescriptor) (name : Text) (d : MethodDescriptor) : Prop :=
  ∃ before after, ds = before ++ d :: after ∧ d.name = name ∧ ∀ e ∈ before, e.name ≠ name

/-- the descriptor is that of the method in this row of the method table -/
def Describes (m : Module) (t : TypeEntry) (row : Nat) (d : MethodDescriptor) : Prop :=
  ∃ r, m.metadata.methods[row - 1]? = some r ∧ r.row = row ∧ d = .ofRow t.fullName r

theorem find?_eq_some_iff_firstNamed {ds : List MethodDescriptor} {d : MethodDescriptor} :
    (ds.find? fun e => e.name = name) = some d ↔ FirstNamed ds name d := by
  rw [List.find?_eq_some_iff_append]
  constructor
  · rintro ⟨hd, before, after, hsplit, hbefore⟩
    exact ⟨before, after, hsplit, by simpa using hd, fun e he => by simpa using hbefore e he⟩
  · rintro ⟨before, after, hsplit, hd, hbefore⟩
    exact ⟨by simpa using hd, before, after, hsplit, fun e he => by simpa using hbefore e he⟩

/-- the two walks over the rows of a type come to the same method -/
theorem findMethod?_eq_find? (m : Module) (t : TypeEntry) (name : Text) :
    m.findMethod? t name = (m.methods t).find? fun d => d.name = name := by
  unfold findMethod? methods
  induction t.methodRows with
  | nil => rfl
  | cons row rows ih =>
    cases hrow : m.metadata.method? row with
    | none => simpa [hrow] using ih
    | some r =>
      by_cases hname : r.name = name
      · simp [hrow, hname, MethodDescriptor.name_ofRow]
      · simpa [hrow, hname, MethodDescriptor.name_ofRow] using ih

/-- the rows of a type that are in the method table are enumerated, one after the other, and no others are -/
theorem methods_describe (hrow : ∀ row r, m.metadata.method? row = some r → r.row = row) (t : TypeEntry) :
    List.Forall₂ (m.Describes t) (t.methodRows.filter fun row => 1 ≤ row ∧ row ≤ m.metadata.methods.size)
      (m.methods t) := by
  unfold methods
  induction t.methodRows with
  | nil => exact .nil
  | cons row rows ih =>
    have hfound := m.metadata.method?_isSome_iff row
    cases hr : m.metadata.method? row with
    | none =>
      have hout : ¬ (1 ≤ row ∧ row ≤ m.metadata.methods.size) := by simpa [hr] using hfound.not.1
      rw [List.filter_cons_of_neg (by simpa using hout), List.filterMap_cons_none (by rw [hr]; rfl)]
      exact ih
    | some r =>
      have hin : 1 ≤ row ∧ row ≤ m.metadata.methods.size := hfound.1 (by rw [hr]; rfl)
      have hcell : m.metadata.methods[row - 1]? = some r := by
        rw [← hr, Metadata.method?, if_neg (by omega)]
      rw [List.filter_cons_of_pos (by simpa using hin), List.filterMap_cons_some (by rw [hr]; rfl)]
      exact .cons ⟨r, hcell, hrow row r hr, rfl⟩ ih

/-! ## Main result -/

/-- **Lookup finds the first declaration and agrees with the enumeration.** In every module that was opened, a full name
means the type of the lowest row that has it, and nothing when no type has it. Whatever rows a type lists, a name means
the first method in the enumeration of the type that has it, and nothing when none has it; and the enumeration describes
those rows that are in the method table, in their order. -/
theorem lookup_declared {b : Bytes} {origin : Text} {m : Module} (h : ofBytes b origin = .ok m) :
    (∀ name t, m.findType? name = some t ↔ m.LowestType name t) ∧
    (∀ name, m.findType? name = none ↔ ∀ t ∈ m.metadata.types, t.fullName ≠ name) ∧
    (∀ t name d, m.findMethod? t name = some d ↔ FirstNamed (m.methods t) name d) ∧
    (∀ t name, m.findMethod? t name = none ↔ ∀ d ∈ m.methods t, d.name ≠ name) ∧
    ∃ count, m.metadata.rowCounts[Metadata.Table.number .methodDef]? = some count ∧
      ∀ t, List.Forall₂ (m.Describes t) (t.methodRows.filter fun row => 1 ≤ row ∧ row ≤ count) (m.methods t) := by
  obtain ⟨present, hconsistent⟩ := consistent_of_ofBytes h
  refine ⟨?type, fun _ => findType?_eq_none_iff, ?method, ?noMethod, ?enumeration⟩
  case type =>
    intro name t
    rw [findType?_eq_some_iff, firstType_iff_lowest hconsistent.typeRow]
  case method =>
    intro t name d
    rw [findMethod?_eq_find?, find?_eq_some_iff_firstNamed]
  case noMethod =>
    intro t name
    rw [findMethod?_eq_find?, List.find?_eq_none]
    simp only [decide_eq_true_eq, ne_eq]
  case enumeration =>
    exact ⟨m.metadata.methods.size, hconsistent.methods, methods_describe hconsistent.row⟩

end Module

end CilPatch

/-! ### A module with method pointers -/

namespace CilPatch.Small

open Metadata

/-- a type `C` whose two methods are called like it; of its four method pointers one is null, one leads behind the end of
the method table, and the other two lead to the second method -/
def pointerTables : TableStream :=
  { tables with
    present := 0x64
    rowCounts := [0, 0, 1, 0, 0, 4, 2] ++ List.replicate 57 0
    rows := fun
      | .typeDef => [[0, 1, 0, 0, 1, 1]]
      | .methodPtr => [[0], [2], [9], [2]]
      | .methodDef => [[0x1010, 0, 0x16, 1, 0, 1], [0x1020, 0, 6, 1, 0, 1]]
      | _ => [] }

def pointerStreams : List Stream :=
  [⟨Text.ascii "#-", 72, 86⟩, ⟨Text.ascii "#Strings", 158, 3⟩, ⟨Text.ascii "#Blob", 161, 1⟩]

def pointerRoot : Bytes :=
  (Root.directory start (Text.ascii "v4") [0, 0] pointerStreams
    ++ (pointerTables.bytes ++ ([0] ++ Text.ascii "C" ++ [0] ++ [0]))).toArray

def pointerFile : Bytes := (headers ++ (cli ++ (bodies ++ pointerRoot.toList))).toArray

def pointerImage : { image : Pe.Image // Pe.Image.parse pointerFile = .ok image } :=
  ⟨⟨false, 0x14C, sections, ⟨0x1000, 72⟩⟩, by decide +kernel⟩

/-- the type with the rows that it lists -/
def pointerType : TypeEntry := ⟨1, [], Text.ascii "C", [0, 2, 9, 2]⟩

/-- the second method, which has no signature -/
def pointerRow : MethodRow := ⟨2, 0x1020, 0, 6, Text.ascii "C", none⟩

def pointerMetadata : { md : Metadata // Metadata.ofRoot pointerRoot = .ok md } where
  val :=
    { version := Text.ascii "v4"
      tableStreamName := Text.ascii "#-"
      heapSizes := 0
      rowCounts := pointerTables.rowCounts
      types := #[pointerType]
      methods := #[⟨1, 0x1010, 0, 0x16, Text.ascii "C", none⟩, pointerRow] }
  property := by decide +kernel

def pointerModule : Module := ⟨pointerFile, Module.inMemory, pointerImage, pointerMetadata⟩

theorem mem_pointerModule {t : TypeEntry} : t ∈ pointerModule.metadata.types ↔ t = pointerType := by
  simp only [pointerModule, pointerMetadata, List.mem_toArray, List.mem_singleton]

theorem ofBytes_pointerFile : Module.ofBytes pointerFile Module.inMemory = .ok pointerModule := by
  have hsize : pointerRoot.size = 162 := by decide +kernel
  have hne : pointerRoot ≠ #[] := by
    intro h
    rw [h] at hsize
    cases hsize
  have hroot := locateRoot_of_mapped (mapped_of_size hsize) hne
  exact Module.ofBytes_eq_ok_iff.2
    ⟨rfl, rfl, pointerImage.2, Metadata.parse_eq_ok_iff.2 ⟨_, hroot, pointerMetadata.2⟩⟩

end CilPatch.Small

namespace CilPatch.Module

/-- null and the row behind the table are passed over, and the second method is enumerated twice and found by its name;
the first method has that name too, but is not listed -/
theorem lookup_declared_pointers : ofBytes Small.pointerFile inMemory = .ok Small.pointerModule ∧
    Small.pointerModule.findType? (Text.ascii "C") = some Small.pointerType ∧
    Small.pointerModule.findType? (Text.ascii "c") = none ∧
    List.Forall₂ (Small.pointerModule.Describes Small.pointerType) [2, 2]
      (Small.pointerModule.methods Small.pointerType) ∧
    Small.pointerModule.findMethod? Small.pointerType (Text.ascii "C")
      = some (.ofRow (Text.ascii "C") Small.pointerRow) ∧
    Small.pointerModule.findMethod? Small.pointerType (Text.ascii "F") = none := by
  obtain ⟨htype, hnoType, hmethod, hnoMethod, count, hcount, henumeration⟩ := lookup_declared Small.ofBytes_pointerFile
  obtain rfl : 2 = count := Option.some.inj hcount
  refine ⟨Small.ofBytes_pointerFile, (htype _ _).2 ?_, (hnoType _).2 ?_, henumeration Small.pointerType,
    (hmethod _ _ _).2 ⟨[], [.ofRow (Text.ascii "C") Small.pointerRow], rfl, rfl, nofun⟩, (hnoMethod _ _).2 ?_⟩
  · exact ⟨Small.mem_pointerModule.2 rfl, rfl, fun u hu _ => by rw [Small.mem_pointerModule.1 hu]⟩
  · intro t ht
    rw [Small.mem_pointerModule.1 ht]
    decide
  · decide

end CilPatch.Module
