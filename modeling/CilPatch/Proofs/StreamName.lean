/-
The name that is reported for the table stream.

The stream is chosen by its name, and its name is then looked up by the place where the stream starts.
`parse_tableStreamName` is the main result: what is reported is the name of the last stream listed for this place, which
is the name of the table stream when no later stream starts there too.

- `find?_eq_some_iff`: the stream that is chosen is the first with one of the names;
- `exists_lastAt`: the name that is looked up is that of the last stream at the place;
- `LastAt.of_split`: the last stream at a place is one of those that follow a stream at this place, or that stream.
-/
import Mathlib.Tactic
import CilPatch.Proofs.MethodLists
import CilPatch.Proofs.Rows

namespace CilPatch.Metadata

namespace Root

/-! ## Choosing a stream -/

theorem find?_eq_some_iff {streams : Array Stream} {names : List Text} {s : Stream} :
    find? streams names = some s ↔ FirstStream streams.toList names s := by
  constructor
  · intro h
    rw [find?, ← Array.find?_toList, List.find?_eq_some_iff_append] at h
    obtain ⟨hname, before, after, hsplit, hbefore⟩ := h
    refine ⟨List.contains_iff_mem.1 hname, before, after, hsplit, ?_⟩
    intro t ht hc
    have hnot := hbefore t ht
    rw [List.contains_iff_mem.2 hc] at hnot
    cases hnot
  · intro h
    simpa using find?_of_firstStream h

/-! ## Looking up a name -/

variable {streams : Array Stream} {s : Stream}

theorem exists_lastAt (hs : s ∈ streams) :
    ∃ last, LastAt streams.toList s.offset last ∧ lastNameAt streams s = last.name := by
  have hfound : (streams.toList.reverse.find? fun t => t.offset = s.offset).isSome := by
    rw [List.find?_isSome]
    exact ⟨s, List.mem_reverse.2 (Array.mem_toList_iff.2 hs), by simp⟩
  obtain ⟨last, hlast⟩ := Option.isSome_iff_exists.1 hfound
  obtain ⟨hoffset, before, after, hsplit, hbefore⟩ := List.find?_eq_some_iff_append.1 hlast
  refine ⟨last, ⟨by simpa using hoffset, after.reverse, before.reverse, ?_, ?_⟩, ?_⟩
  · have hstreams := congrArg List.reverse hsplit
    simpa using hstreams
  · intro t ht
    simpa using hbefore t (List.mem_reverse.1 ht)
  · rw [lastNameAt, hlast]
    rfl

/-- what holds of a stream and of all later ones at its offset holds of the last one there -/
theorem LastAt.of_split {list before after : List Stream} {last : Stream} {p : Stream → Prop}
    (h : LastAt list s.offset last) (hsplit : list = before ++ s :: after) (hs : p s)
    (hafter : ∀ t ∈ after, t.offset = s.offset → p t) : p last := by
  obtain ⟨hoffset, before', after', hlast, hnone⟩ := h
  rw [hlast, List.append_eq_append_iff] at hsplit
  rcases hsplit with ⟨mid, -, hmid⟩ | ⟨mid, -, hmid⟩
  · cases mid with
    | nil =>
      obtain ⟨rfl, -⟩ := List.cons.inj hmid
      exact hs
    | cons t mid =>
      -- the stream itself would stand behind the last one at its offset
      obtain ⟨-, hbehind⟩ := List.cons.inj hmid
      have hmem : s ∈ after' := by simp [hbehind]
      exact absurd rfl (hnone s hmem)
  · cases mid with
    | nil =>
      obtain ⟨rfl, -⟩ := List.cons.inj hmid
      exact hs
    | cons t mid =>
      obtain ⟨-, hbehind⟩ := List.cons.inj hmid
      have hmem : last ∈ after := by simp [hbehind]
      exact hafter last hmem hoffset

end Root

/-! ## Main result -/

/-- **The name reported for the table stream is that of the last stream that starts where it does.** The tables are
read from the first stream with one of the two names. Its own name, and so one of the two, is reported when each stream
that is listed behind it starts elsewhere or has the same name. -/
theorem parse_tableStreamName (file : Bytes) (sections : List Pe.Section) (cliRva : Nat) (md : Metadata)
    (h : parse file sections cliRva = .ok md) : ∃ root streams tables strings blobs last,
      locateRoot file sections cliRva = .ok root ∧ Root.readDirectory root = .ok streams ∧
      Root.FirstStream streams.toList tableStreamNames tables ∧
      Root.FirstStream streams.toList [Text.ascii "#Strings"] strings ∧
      Root.FirstStream streams.toList [Text.ascii "#Blob"] blobs ∧
      readTables (Root.version root) last.name ⟨tables.data root, strings.data root, blobs.data root⟩ = .ok md ∧
      Root.LastAt streams.toList tables.offset last ∧ md.tableStreamName = last.name ∧
      ∀ before after, streams.toList = before ++ tables :: after →
        (∀ s ∈ after, s.offset = tables.offset → s.name = tables.name) →
        md.tableStreamName = tables.name ∧ md.tableStreamName ∈ tableStreamNames := by
  obtain ⟨root, hroot, hmd⟩ := parse_eq_ok_iff.1 h
  rw [ofRoot_eq, bind_eq_ok_iff] at hmd
  obtain ⟨⟨name, heaps⟩, hheaps, hmd⟩ := hmd
  obtain ⟨streams, tables, strings, blobs, -, hstreams, htables, hstrings, hblobs, rfl, rfl⟩ :=
    Root.readHeaps_eq_ok_iff.1 hheaps
  obtain ⟨last, hlast, hname⟩ := Root.exists_lastAt (Array.mem_of_find?_eq_some htables)
  rw [Root.find?_eq_some_iff] at htables hstrings hblobs
  dsimp only at hmd
  rw [hname] at hmd
  have hreported : md.tableStreamName = last.name := by
    obtain ⟨l, methods, types, -, -, -, rfl⟩ := readTables_eq_ok_iff.1 hmd
    rfl
  refine ⟨root, streams, tables, strings, blobs, last, hroot, hstreams, htables, hstrings, hblobs, hmd, hlast,
    hreported, ?_⟩
  intro before after hsplit hafter
  have hown : last.name = tables.name := hlast.of_split (p := fun s => s.name = tables.name) hsplit rfl hafter
  rw [hreported, hown]
  exact ⟨rfl, htables.1⟩

/-- the small module reports the only stream at its offset -/
theorem parse_tableStreamName_small : parse Small.file Small.sections 0x1000 = .ok Small.metadata.1 ∧
    ∃ root streams tables last, locateRoot Small.file Small.sections 0x1000 = .ok root ∧
      Root.readDirectory root = .ok streams ∧ Root.FirstStream streams.toList tableStreamNames tables ∧
      Root.LastAt streams.toList tables.offset last ∧ last.name = Text.ascii "#~" := by
  have hparse : parse Small.file Small.sections 0x1000 = .ok Small.metadata.1 :=
    (Module.ofBytes_eq_ok_iff.1 Small.ofBytes_file).2.2.2
  obtain ⟨root, streams, tables, strings, blobs, last, hroot, hstreams, htables, -, -, -, hlast, hname, -⟩ :=
    parse_tableStreamName _ _ _ _ hparse
  exact ⟨hparse, root, streams, tables, last, hroot, hstreams, htables, hlast, hname.symm⟩

end CilPatch.Metadata

/-! ## A stream at the place of the tables -/

namespace CilPatch.Small

open Metadata

/-- the streams of the small module, with the blob heap at the start of the table stream -/
def sharedStreams : List Stream :=
  [⟨Text.ascii "#~", 72, 74⟩, ⟨Text.ascii "#Strings", 146, 7⟩, ⟨Text.ascii "#Blob", 72, 9⟩]

def sharedRoot : Bytes :=
  (Root.directory start (Text.ascii "v4") [0, 0] sharedStreams ++ (tables.bytes ++ (strings ++ blobs))).toArray

def shared : Bytes := (headers ++ (cli ++ (bodies ++ sharedRoot.toList))).toArray

/-- what its metadata says; the signatures are not to be found in the table stream -/
def sharedMetadata : { md : Metadata // Metadata.ofRoot sharedRoot = .ok md } where
  val :=
    { version := Text.ascii "v4"
      tableStreamName := Text.ascii "#Blob"
      heapSizes := 0
      rowCounts := tables.rowCounts
      types := #[⟨1, [], Text.ascii "C", [1, 2]⟩]
      methods := #[⟨1, 0x1010, 0, 0x16, Text.ascii "F", none⟩, ⟨2, 0x1020, 0, 6, Text.ascii "G", none⟩] }
  property := by decide +kernel

end CilPatch.Small

namespace CilPatch.Metadata

/-- **A heap at the same place lends the table stream its name** -/
theorem parse_tableStreamName_shared :
    ∃ md, parse Small.shared Small.sections 0x1000 = .ok md ∧ md.tableStreamName = Text.ascii "#Blob" ∧
      md.tableStreamName ∉ tableStreamNames := by
  have hsize : Small.sharedRoot.size = 162 := by decide +kernel
  have hne : Small.sharedRoot ≠ #[] := by
    intro h
    rw [h] at hsize
    cases hsize
  have hroot := locateRoot_of_mapped (Small.mapped_of_size hsize) hne
  exact ⟨Small.sharedMetadata.1, parse_eq_ok_iff.2 ⟨_, hroot, Small.sharedMetadata.2⟩, rfl, by decide⟩

end CilPatch.Metadata
