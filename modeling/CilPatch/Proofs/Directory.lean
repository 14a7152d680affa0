/-
The stream directory of a metadata root is read as it was laid out, or refused.

The place of an entry depends on the lengths of the version and of all names before it. Each entry is looked at up to
the terminator of its name.

- `Stream.read_of_head`, `Stream.read_of_cut`: one entry that is there up to its terminator, and one that is not;
- `readStreams_of_holds`, `readStreams_of_outside`, `readStreams_of_cut`: the inductions over all entries;
- `readDirectory_of_laidOut`: a directory of streams that lie inside the root is read as these streams in order;
- `readDirectory_roundTrip`: and it is refused when a stream leaves the root or the root is cut off in front of the end
  of the last name.
-/
import Mathlib.Tactic
import CilPatch.Metadata.RootLayout
import CilPatch.Proofs.Records

namespace CilPatch.Metadata

open Bytes (Holds)

variable {root : Bytes}

/-- a name padded to a multiple of four has its terminator right behind it -/
theorem padTo_alignUp4 (name : Text) :
    padTo (alignUp4 (name.length + 1)) name
      = name ++ [0] ++ List.replicate (alignUp4 (name.length + 1) - name.length - 1) 0 := by
  have hpos : 0 < alignUp4 (name.length + 1) - name.length := by
    unfold alignUp4
    omega
  obtain ⟨k, hk⟩ := Nat.exists_eq_add_of_lt hpos
  rw [padTo, hk]
  simp [List.replicate_succ]

theorem length_padTo {length : Nat} {s : Text} (h : s.length ≤ length) : (padTo length s).length = length := by
  simp only [padTo, List.length_append, List.length_replicate]
  omega

theorem le_alignUp4 (n : Nat) : n ≤ alignUp4 n := by
  unfold alignUp4
  omega

namespace Stream

variable {s : Stream} {pos : Nat}

theorem entry_eq (s : Stream) : s.entry = s.head ++ List.replicate s.padding 0 := by
  rw [entry, head, padding, padTo_alignUp4, Nat.sub_sub]
  simp only [List.append_assoc]

theorem length_head (s : Stream) : s.head.length = 8 + s.name.length + 1 := by
  simp only [head, List.length_append, Bytes.length_toLE, List.length_singleton]
  omega

/-- an entry of the directory is read as the stream it was written for, if that lies inside the root -/
theorem read_of_head (hs : s.Listable) (index : Nat) (h : root.Holds pos s.head) :
    Stream.read root index pos =
      if s.Inside root then .ok s else .error (.streamOutsideRoot s.name s.offset s.size) := by
  rw [head] at h
  have hoffset : root.u32? pos = some s.offset := Bytes.read?_of_holds_lt (by omega) hs.offset h.left.left
  have hsize : root.u32? (pos + 4) = some s.size := by
    have := h.left.right
    rw [Bytes.length_toLE] at this
    exact Bytes.read?_of_holds_lt (by omega) hs.size this
  have hname : root.cstring? (pos + 8) = some s.name := by
    have := h.right
    rw [List.length_append, Bytes.length_toLE, Bytes.length_toLE] at this
    exact Bytes.cstring?_of_holds hs.name this
  simp only [Stream.read, hoffset, hsize, hname]
  rfl

/-- an entry that is cut off in front of its terminator is refused -/
theorem read_of_cut (hs : s.Listable) (index : Nat) (h : root.Holds pos s.head) {n : Nat}
    (hn : n ≤ pos + 8 + s.name.length) :
    Stream.read (root.extract 0 n) index pos = .error (.truncatedStreamHeader index) := by
  rw [head] at h
  have hplace : root.Holds (pos + 8) s.name := by
    have := h.right.left
    rwa [List.length_append, Bytes.length_toLE, Bytes.length_toLE] at this
  have hname : Bytes.cstring? (root.extract 0 n) (pos + 8) = none := Bytes.cstring?_cut hs.name hplace hn
  unfold Stream.read
  rw [hname]
  split
  · rename_i hnone
    cases hnone
  · rfl

theorem size_data (hin : s.Inside root) : (s.data root).size = s.size := by
  have hle : s.offset + s.size ≤ root.size := hin
  rw [data, Array.size_extract]
  omega

theorem data_of_holds {bytes : List UInt8} (h : root.Holds s.offset bytes)
    (hlength : bytes.length = s.size) (hne : bytes ≠ []) : s.data root = bytes.toArray := by
  rw [data, ← hlength]
  exact h.extract_eq hne

end Stream

namespace Root

/-- of several entries, the first stands at the start, and the others behind it and its padding -/
theorem holds_cons_entries {s : Stream} {streams : List Stream} {pos : Nat}
    (h : root.Holds pos ((s :: streams).map Stream.entry).flatten) :
    root.Holds pos s.head ∧ root.Holds (pos + Stream.entrySize s.name) (streams.map Stream.entry).flatten := by
  rw [List.map_cons, List.flatten_cons] at h
  have hhead := h.left
  have hrest := h.right
  rw [Stream.entry_eq] at hhead
  rw [Stream.length_entry] at hrest
  exact ⟨hhead.left, hrest⟩

/-- listed streams that all lie inside the root are read in order -/
theorem readStreams_of_holds {streams : List Stream} (hs : ∀ s ∈ streams, s.Listable)
    (hin : ∀ s ∈ streams, s.Inside root) (index : Nat) {pos : Nat} (seen : Array Stream)
    (h : root.Holds pos (streams.map Stream.entry).flatten) :
    readStreams root streams.length index pos seen = .ok (seen ++ streams.toArray) := by
  induction streams generalizing index pos seen with
  | nil => simp [readStreams]
  | cons s streams ih =>
    obtain ⟨hhead, hrest⟩ := holds_cons_entries h
    have hread : Stream.read root index pos = .ok s := by
      rw [Stream.read_of_head (hs s List.mem_cons_self) index hhead]
      exact if_pos (hin s List.mem_cons_self)
    rw [List.length_cons, readStreams, hread]
    simp only
    rw [ih (fun t ht => hs t (List.mem_cons_of_mem s ht)) (fun t ht => hin t (List.mem_cons_of_mem s ht)) (index + 1)
      (seen.push s) hrest]
    simp

/-- a listed stream that leaves the root is refused -/
theorem readStreams_of_outside {streams : List Stream} (hs : ∀ s ∈ streams, s.Listable) (index : Nat) {pos : Nat}
    (seen : Array Stream) (h : root.Holds pos (streams.map Stream.entry).flatten)
    (hout : ∃ s ∈ streams, ¬ s.Inside root) : ∃ s ∈ streams, ¬ s.Inside root ∧
      readStreams root streams.length index pos seen = .error (.streamOutsideRoot s.name s.offset s.size) := by
  induction streams generalizing index pos seen with
  | nil => simp at hout
  | cons s streams ih =>
    obtain ⟨hhead, hrest⟩ := holds_cons_entries h
    rw [List.length_cons, readStreams, Stream.read_of_head (hs s List.mem_cons_self) index hhead]
    by_cases hin : s.Inside root
    · -- then it is one of the others
      have hout' : ∃ t ∈ streams, ¬ t.Inside root := by
        obtain ⟨t, ht, houtside⟩ := hout
        rcases List.mem_cons.1 ht with rfl | ht
        · exact absurd hin houtside
        · exact ⟨t, ht, houtside⟩
      obtain ⟨t, ht, houtside, herror⟩ :=
        ih (fun t ht => hs t (List.mem_cons_of_mem s ht)) (index + 1) (seen.push s) hrest hout'
      refine ⟨t, List.mem_cons_of_mem s ht, houtside, ?_⟩
      simp only [if_pos hin]
      exact herror
    · refine ⟨s, List.mem_cons_self, hin, ?_⟩
      simp only [if_neg hin]

/-- entries that are cut off in front of one of their terminators are refused -/
theorem readStreams_of_cut {before after : List Stream} {s : Stream} (hs : ∀ t ∈ before ++ s :: after, t.Listable)
    (index : Nat) {pos : Nat} (seen : Array Stream)
    (h : root.Holds pos ((before ++ s :: after).map Stream.entry).flatten) {n : Nat}
    (hn : n ≤ pos + (before.map Stream.entry).flatten.length + 8 + s.name.length) :
    ∃ e, readStreams (root.extract 0 n) (before ++ s :: after).length index pos seen = .error e := by
  -- an entry in front of the cut one may fail before it is reached, since its stream may lie behind the cut
  induction before generalizing index pos seen with
  | nil =>
    obtain ⟨hhead, -⟩ := holds_cons_entries h
    rw [List.nil_append, List.length_cons, readStreams,
      Stream.read_of_cut (hs s List.mem_cons_self) index hhead (by simpa using hn)]
    exact ⟨_, rfl⟩
  | cons t before ih =>
    obtain ⟨hhead, hrest⟩ := holds_cons_entries h
    have hlisted : t.Listable := hs t List.mem_cons_self
    rw [List.cons_append, List.length_cons, readStreams]
    rcases Nat.lt_or_ge (pos + 8 + t.name.length) n with hlt | hge
    · have hcut : Bytes.Holds (root.extract 0 n) pos t.head := hhead.cut (by rw [Stream.length_head]; omega)
      rw [Stream.read_of_head hlisted index hcut]
      by_cases hin : t.Inside (root.extract 0 n)
      · simp only [if_pos hin]
        refine ih (fun u hu => hs u (List.mem_cons_of_mem t hu)) (index + 1) (seen.push t) hrest ?_
        rw [List.map_cons, List.flatten_cons, List.length_append, Stream.length_entry] at hn
        omega
      · simp only [if_neg hin]
        exact ⟨_, rfl⟩
    · rw [Stream.read_of_cut hlisted index hhead hge]
      exact ⟨_, rfl⟩

/-! ## Directories -/

variable {start flags : List UInt8} {version : Text} {streams : List Stream}

theorem Listable.length_front (h : Listable start version flags streams) :
    (front start version flags streams.length).length = 16 + alignUp4 version.length + 4 := by
  simp only [front, List.length_append, h.startLength, h.flagsLength, Bytes.length_toLE,
    length_padTo (le_alignUp4 version.length)]

/-- the length of the version is found when the first 16 bytes are there -/
theorem Listable.read_length (h : Listable start version flags streams)
    (hroot : root.Holds 0 (start ++ Bytes.toLE 4 version.length)) : root.u32? 12 = some version.length := by
  have := hroot.right
  rw [h.startLength] at this
  exact Bytes.read?_of_holds_lt (by omega) h.versionLength (by simpa using this)

/-- behind a front that is there the entries are read -/
theorem readDirectory_of_front (h : Listable start version flags streams)
    (hroot : root.Holds 0 (front start version flags streams.length)) :
    readDirectory root = readStreams root streams.length 0 (16 + alignUp4 version.length + 4) #[] := by
  unfold front at hroot
  have hpad := length_padTo (le_alignUp4 version.length)
  have hcount : root.u16? (16 + alignUp4 version.length + 2) = some streams.length := by
    have := hroot.right
    simp only [List.length_append, h.startLength, h.flagsLength, Bytes.length_toLE, hpad, Nat.zero_add] at this
    exact Bytes.read?_of_holds_lt (by omega) h.count this
  simp only [readDirectory, h.read_length hroot.left.left.left, hcount]

/-- a front that is cut off is refused -/
theorem readDirectory_of_cut (h : Listable start version flags streams)
    (hroot : root.Holds 0 (front start version flags streams.length)) {n : Nat}
    (hn : n < 16 + alignUp4 version.length + 4) : readDirectory (root.extract 0 n) = .error .truncatedRoot := by
  unfold front at hroot
  have hsize : (root.extract 0 n).size ≤ n := by
    rw [Array.size_extract]
    omega
  rcases Nat.lt_or_ge n 16 with hlt | hge
  · have hlength : Bytes.u32? (root.extract 0 n) 12 = none := if_neg (by omega)
    simp only [readDirectory, hlength]
  · have hfirst : Bytes.Holds (root.extract 0 n) 0 (start ++ Bytes.toLE 4 version.length) :=
      hroot.left.left.left.cut (by rw [List.length_append, h.startLength, Bytes.length_toLE]; omega)
    have hcount : Bytes.u16? (root.extract 0 n) (16 + alignUp4 version.length + 2) = none := if_neg (by omega)
    simp only [readDirectory, h.read_length hfirst, hcount]

/-- where the entries stand -/
theorem Listable.holds_entries (h : Listable start version flags streams)
    (hroot : root.Holds 0 (directory start version flags streams)) :
    root.Holds (16 + alignUp4 version.length + 4) (streams.map Stream.entry).flatten := by
  have hentries : root.Holds (0 + (front start version flags streams.length).length)
      (streams.map Stream.entry).flatten := hroot.right
  rwa [h.length_front, Nat.zero_add] at hentries

/-- a directory is read as the streams it was laid out for -/
theorem readDirectory_of_laidOut (h : LaidOut root start version flags streams) :
    readDirectory root = .ok streams.toArray := by
  rw [readDirectory_of_front h.toListable h.holds.left]
  simpa using readStreams_of_holds h.each h.inside 0 #[] (h.holds_entries h.holds)

/-- a directory that is cut off in front of one of its terminators is refused -/
theorem exists_error_of_cut {before after : List Stream} {s : Stream}
    (h : Listable start version flags (before ++ s :: after))
    (hroot : root.Holds 0 (directory start version flags (before ++ s :: after))) {n : Nat}
    (hn : n ≤ 16 + alignUp4 version.length + 4 + (before.map Stream.entry).flatten.length + 8 + s.name.length) :
    ∃ e, readDirectory (root.extract 0 n) = .error e := by
  rcases Nat.lt_or_ge n (16 + alignUp4 version.length + 4) with hlt | hge
  · exact ⟨_, readDirectory_of_cut h hroot.left hlt⟩
  · have hfront : root.Holds 0 (front start version flags (before ++ s :: after).length) := hroot.left
    rw [readDirectory_of_front h (hfront.cut (by rw [h.length_front]; omega))]
    exact readStreams_of_cut h.each 0 #[] (h.holds_entries hroot) hn

/-- **A stream directory is read back whole or refused.** A root that starts with the directory of some streams is read
as exactly these streams in their order, whatever the lengths of the version and of the names, and the data of each are
the bytes of the root in its range. If the range of a stream leaves the root, the directory is refused for such a
stream. If the root is cut off in front of the last terminator, or in front of the end of the number of streams where
there are none, it is refused too, so that no part of the list is ever taken for the list. -/
theorem readDirectory_roundTrip (start flags : List UInt8) (version : Text) (streams : List Stream) (root : Bytes)
    (h : Listable start version flags streams) (hroot : root.Holds 0 (directory start version flags streams)) :
    ((∀ s ∈ streams, s.Inside root) → readDirectory root = .ok streams.toArray ∧
      ∀ s ∈ streams, (s.data root).size = s.size ∧ root.Holds s.offset (s.data root).toList) ∧
    ((∃ s ∈ streams, ¬ s.Inside root) → ∃ s ∈ streams, ¬ s.Inside root ∧
      readDirectory root = .error (.streamOutsideRoot s.name s.offset s.size)) ∧
    ∀ n, n + lastPadding streams < (directory start version flags streams).length →
      ∃ e, readDirectory (root.extract 0 n) = .error e := by
  refine ⟨?inside, ?outside, ?cut⟩
  case inside =>
    intro hin
    exact ⟨readDirectory_of_laidOut { h with inside := hin, holds := hroot },
      fun s hs => ⟨Stream.size_data (hin s hs), root.holds_extract s.offset s.size⟩⟩
  case outside =>
    intro hout
    rw [readDirectory_of_front h hroot.left]
    exact readStreams_of_outside h.each 0 #[] (h.holds_entries hroot) hout
  case cut =>
    intro n hn
    have hlength : (directory start version flags streams).length =
        16 + alignUp4 version.length + 4 + (streams.map Stream.entry).flatten.length := by
      rw [← h.length_front]
      exact List.length_append
    rcases List.eq_nil_or_concat' streams with rfl | ⟨before, s, rfl⟩
    · exact ⟨_, readDirectory_of_cut h hroot.left (by simpa [hlength, lastPadding] using hn)⟩
    · have hentry : s.entry.length = s.head.length + s.padding := by
        rw [Stream.entry_eq, List.length_append, List.length_replicate]
      refine exists_error_of_cut h hroot ?_
      simp only [lastPadding, List.getLast?_concat, Option.map_some, Option.getD_some, hlength, List.map_append,
        List.map_cons, List.map_nil, List.flatten_append, List.length_append, List.flatten_cons, List.flatten_nil,
        List.append_nil, hentry, Stream.length_head] at hn
      omega

end Root

end CilPatch.Metadata

/-! ### A directory whose names end at every distance from a multiple of four -/

namespace CilPatch.Small

open Metadata

/-- names of 3, 4, 7 and 8 bytes; the first stream is the whole root, the second starts at the offset -/
def paddedStreams (offset : Nat) : List Metadata.Stream :=
  [⟨Text.ascii "#US", 0, 92⟩, ⟨Text.ascii "#CLR", offset, 4⟩, ⟨Text.ascii "#String", 92, 0⟩,
    ⟨Text.ascii "#Strings", 90, 2⟩]

def paddedStart : List UInt8 := Text.ascii "BSJB" ++ List.replicate 8 1

def paddedRoot (offset : Nat) : Bytes :=
  (Root.directory paddedStart (Text.ascii "v40") [0, 0] (paddedStreams offset) ++ [7, 7, 7, 7]).toArray

theorem padded_listable {offset : Nat} (h : offset < Bytes.limit 4) :
    Root.Listable paddedStart (Text.ascii "v40") [0, 0] (paddedStreams offset) where
  startLength := by decide
  versionLength := by decide
  flagsLength := by decide
  count := by simp [paddedStreams, Bytes.limit]
  each := by
    have hname : 0 ∉ Text.ascii "#CLR" := by decide
    have hsize : 4 < Bytes.limit 4 := by decide
    intro s hs
    simp only [paddedStreams, List.mem_cons, List.not_mem_nil, or_false] at hs
    rcases hs with rfl | rfl | rfl | rfl
    · exact ⟨by decide, by decide, by decide⟩
    · exact ⟨hname, h, hsize⟩
    · exact ⟨by decide, by decide, by decide⟩
    · exact ⟨by decide, by decide, by decide⟩

theorem padded_holds (offset : Nat) : (paddedRoot offset).Holds 0
    (Root.directory paddedStart (Text.ascii "v40") [0, 0] (paddedStreams offset)) :=
  Bytes.holds_toArray [] _ [7, 7, 7, 7] rfl rfl

end CilPatch.Small

namespace CilPatch.Metadata.Root

/-- the directory is read; it is refused when its last terminator is missing, and when its second stream ends one byte
behind the root -/
theorem readDirectory_roundTrip_small :
    (∀ s ∈ Small.paddedStreams 88, s.Inside (Small.paddedRoot 88)) ∧
    readDirectory (Small.paddedRoot 88) = .ok (Small.paddedStreams 88).toArray ∧
    84 + lastPadding (Small.paddedStreams 88) < 88 ∧
    (∃ e, readDirectory ((Small.paddedRoot 88).extract 0 84) = .error e) ∧
    ∃ s ∈ Small.paddedStreams 89, ¬ s.Inside (Small.paddedRoot 89) ∧
      readDirectory (Small.paddedRoot 89) = .error (.streamOutsideRoot s.name s.offset s.size) := by
  obtain ⟨hread, -, hcut⟩ := readDirectory_roundTrip Small.paddedStart [0, 0] (Text.ascii "v40")
    (Small.paddedStreams 88) (Small.paddedRoot 88) (Small.padded_listable (by decide)) (Small.padded_holds 88)
  obtain ⟨-, hout, -⟩ := readDirectory_roundTrip Small.paddedStart [0, 0] (Text.ascii "v40")
    (Small.paddedStreams 89) (Small.paddedRoot 89) (Small.padded_listable (by decide)) (Small.padded_holds 89)
  have hinside : ∀ s ∈ Small.paddedStreams 88, s.Inside (Small.paddedRoot 88) := by decide +kernel
  have hshort : 84 + lastPadding (Small.paddedStreams 88) < 88 := by decide
  have hlength : (directory Small.paddedStart (Text.ascii "v40") [0, 0] (Small.paddedStreams 88)).length = 88 := by
    decide +kernel
  exact ⟨hinside, (hread hinside).1, hshort, hcut 84 (hlength ▸ hshort), hout (by decide +kernel)⟩

end CilPatch.Metadata.Root
