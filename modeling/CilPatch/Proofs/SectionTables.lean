/-
Section tables as a whole: which addresses they map, and to which bytes of the file.

A table may list its sections in any order, and their ranges may overlap, reach over the end of the 32-bit addresses or
be loaded from the same bytes. `Apart` and `RawApart` say that they do not meet in memory and not in the file.

- `fileOffset?_iff_of_apart`: where the ranges are apart, the place of a section in the table does not matter;
- `Section.offsetOf_mem_raw`: an address in the raw size of a section is loaded from its raw data;
- `fileOffset?_table`: the main result about lookups of one and of two addresses.
-/
import CilPatch.Proofs.BodyBounds
import CilPatch.Proofs.Mapping
import CilPatch.Proofs.SectionBounds

namespace CilPatch.Pe

open Bytes (Span)

/-! ## Sections that do not meet -/

/-- the addresses that the section covers -/
def Section.mapped (s : Section) : Span := ⟨s.virtualAddress, max s.virtualSize s.rawSize⟩

/-- the address has a byte in the raw data of the section -/
def Section.Loads (s : Section) (rva : Nat) : Prop := s.virtualAddress ≤ rva ∧ rva < s.virtualAddress + s.rawSize

/-- no address is covered by two sections of the table -/
def Apart (sections : List Section) : Prop := sections.Pairwise fun s t => s.mapped.Disjoint t.mapped

/-- no byte of the file belongs to two sections of the table, and their raw data end within 32 bits -/
structure RawApart (sections : List Section) : Prop where
  disjoint : sections.Pairwise fun s t => s.raw.Disjoint t.raw
  stop_le : ∀ s ∈ sections, s.raw.stop ≤ Bytes.limit 4

instance (sections : List Section) : Decidable (Apart sections) := inferInstanceAs (Decidable (List.Pairwise _ _))

variable {sections other : List Section} {s t : Section} {rva rva' off : Nat}

theorem Section.Loads.covers (h : s.Loads rva) : s.Covers rva :=
  ⟨h.1, h.2.trans_le (Nat.add_le_add_left (Nat.le_max_right _ _) _)⟩

theorem Apart.perm (h : Apart sections) (hperm : other.Perm sections) : Apart other :=
  (hperm.pairwise_iff fun hst => hst.symm).2 h

/-- where the ranges of the sections do not meet, only one of them has a given number in its range -/
theorem eq_of_mem {range : Section → Span} (h : sections.Pairwise fun s t => (range s).Disjoint (range t))
    (hs : s ∈ sections) (ht : t ∈ sections) {i : Nat} (his : (range s).Mem i) (hit : (range t).Mem i) : s = t := by
  have : Std.Symm fun s t : Section => (range s).Disjoint (range t) := ⟨fun _ _ hst => hst.symm⟩
  by_contra hne
  exact List.Pairwise.forall h hs ht hne i his hit

/-- only one section of the table covers an address -/
theorem Apart.eq_of_covers (h : Apart sections) (hs : s ∈ sections) (ht : t ∈ sections) (hcs : s.Covers rva)
    (hct : t.Covers rva) : s = t :=
  eq_of_mem h hs ht hcs hct

/-! ## Lookups -/

theorem fileOffset?_isSome_iff : (fileOffset? sections rva).isSome ↔ ∃ s ∈ sections, s.Covers rva := by
  rw [← not_iff_not, Bool.not_eq_true, Option.isSome_eq_false_iff, Option.isNone_iff_eq_none, fileOffset?_eq_none_iff]
  push Not
  rfl

/-- where the sections are apart, an address is mapped by any of them that covers it -/
theorem fileOffset?_iff_of_apart (h : Apart sections) :
    fileOffset? sections rva = some off ↔ ∃ s ∈ sections, s.Covers rva ∧ off = s.offsetOf rva := by
  constructor
  · intro hoff
    obtain ⟨before, s, after, rfl, hcovers, -, rfl⟩ := fileOffset?_eq_some_iff.1 hoff
    exact ⟨s, List.mem_append_right before List.mem_cons_self, hcovers, rfl⟩
  · rintro ⟨s, hs, hcovers, rfl⟩
    obtain ⟨first, hfirst⟩ := Option.isSome_iff_exists.1 (fileOffset?_isSome_iff.2 ⟨s, hs, hcovers⟩)
    obtain ⟨t, ht, -, hcontains, rfl⟩ := exists_owner hfirst
    rw [hfirst, h.eq_of_covers hs ht hcovers (Section.contains_iff.1 hcontains)]

/-- an address in the raw size of a section is loaded from its raw data, where nothing wraps around -/
theorem Section.offsetOf_mem_raw (hstop : s.raw.stop ≤ Bytes.limit 4) (h : s.Loads rva) :
    s.offsetOf rva = rva - s.virtualAddress + s.rawPointer ∧ s.raw.Mem (s.offsetOf rva) := by
  obtain ⟨hle, hlt⟩ := h
  simp only [raw, Span.stop, Bytes.limit] at hstop
  have hsmall : s.offsetOf rva = rva - s.virtualAddress + s.rawPointer := Nat.mod_eq_of_lt (by omega)
  refine ⟨hsmall, ?_⟩
  simp only [hsmall, raw, Span.Mem, Span.stop]
  omega

/-- two addresses with bytes of their own have different ones -/
theorem eq_of_fileOffset?_eq (h : Apart sections) (hraw : RawApart sections) (hs : s ∈ sections) (ht : t ∈ sections)
    (hls : s.Loads rva) (hlt : t.Loads rva') (heq : fileOffset? sections rva = fileOffset? sections rva') :
    rva = rva' := by
  obtain ⟨hoff, hmem⟩ := Section.offsetOf_mem_raw (hraw.stop_le s hs) hls
  obtain ⟨hoff', hmem'⟩ := Section.offsetOf_mem_raw (hraw.stop_le t ht) hlt
  have hsame : s.offsetOf rva = t.offsetOf rva' := by
    rw [(fileOffset?_iff_of_apart h).2 ⟨s, hs, hls.covers, rfl⟩,
      (fileOffset?_iff_of_apart h).2 ⟨t, ht, hlt.covers, rfl⟩] at heq
    exact Option.some.inj heq
  obtain rfl : s = t := eq_of_mem hraw.disjoint hs ht hmem (hsame ▸ hmem')
  have hle := hls.1
  have hle' := hlt.1
  omega

/-- **Addresses are mapped by the first section that covers them.** An address has an offset exactly when a section
covers it, in unbounded numbers, also behind the end of the 32-bit addresses; then the first such section of the table
gives the offset, counted with 32 bits, and no difference on the way is below zero. If no two sections cover the same
address, every order of the table gives the same offsets. If they are loaded from different bytes as well, and these end
within 32 bits, then different addresses in the raw sizes of their sections have different offsets. -/
theorem fileOffset?_table (sections : List Section) :
    (∀ rva, Checked.fileOffset sections rva = .ok (fileOffset? sections rva)) ∧
    (∀ rva, (fileOffset? sections rva).isSome ↔ ∃ s ∈ sections, s.Covers rva) ∧
    (∀ rva off, fileOffset? sections rva = some off ↔ MapsTo sections rva off) ∧
    (Apart sections → ∀ other, other.Perm sections → ∀ rva, fileOffset? other rva = fileOffset? sections rva) ∧
    (Apart sections → RawApart sections → ∀ rva rva', (∃ s ∈ sections, s.Loads rva) → (∃ s ∈ sections, s.Loads rva') →
      rva ≠ rva' → fileOffset? sections rva ≠ fileOffset? sections rva') := by
  refine ⟨Checked.fileOffset_eq sections, fun rva => fileOffset?_isSome_iff, fun rva off => fileOffset?_eq_some_iff,
    ?order, ?distinct⟩
  case order =>
    intro hapart other hperm rva
    apply Option.ext
    intro off
    rw [fileOffset?_iff_of_apart (hapart.perm hperm), fileOffset?_iff_of_apart hapart]
    simp only [hperm.mem_iff]
  case distinct =>
    rintro hapart hraw rva rva' ⟨s, hs, hls⟩ ⟨t, ht, hlt⟩ hne heq
    exact hne (eq_of_fileOffset?_eq hapart hraw hs ht hls hlt heq)

end CilPatch.Pe

/-! ### A table that reaches over the end of the addresses -/

namespace CilPatch.Small

/-- the second section covers the last 16 addresses of 32 bits and goes on behind them; the third has no raw data -/
def endTable : List Pe.Section :=
  [⟨Text.ascii ".text", 0x400, 0x1000, 0x400, 344⟩, ⟨Text.ascii ".data", 0, 0xFFFFFFF0, 0x20, 0xFFFFFFE0⟩,
    ⟨Text.ascii ".bss", 0x800, 0x2000, 0, 0⟩]

theorem endTable_rawApart : Pe.RawApart endTable := ⟨by decide, by decide⟩

end CilPatch.Small

namespace CilPatch.Pe

/-- the last address has an offset in either order of the table, and it is not that of another one -/
theorem fileOffset?_table_small : Apart Small.endTable ∧ RawApart Small.endTable ∧
    Small.endTable.reverse.Perm Small.endTable ∧
    fileOffset? Small.endTable.reverse 0xFFFFFFFF = fileOffset? Small.endTable 0xFFFFFFFF ∧
    fileOffset? Small.endTable 0xFFFFFFFF = some 0xFFFFFFEF ∧
    fileOffset? Small.endTable 0x1000 ≠ fileOffset? Small.endTable 0xFFFFFFFF := by
  obtain ⟨-, -, -, horder, hdistinct⟩ := fileOffset?_table Small.endTable
  have hapart : Apart Small.endTable := by decide
  refine ⟨hapart, Small.endTable_rawApart, List.reverse_perm _, horder hapart _ (List.reverse_perm _) _, by decide, ?_⟩
  exact hdistinct hapart Small.endTable_rawApart 0x1000 0xFFFFFFFF
    ⟨_, List.mem_cons_self, by decide, by decide⟩
    ⟨_, List.mem_cons_of_mem _ List.mem_cons_self, by decide, by decide⟩ (by decide)

end CilPatch.Pe
