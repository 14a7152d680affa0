/-
Headers are read as they were laid out.

The places of the fields depend on one another: the DOS header tells where the COFF header is, which tells how long the
optional header is, whose kind tells where the directory count is, and the section table starts behind all of it.

- `CoffHeader.read?_of_laidOut`, `OptionalHeader.read_of_laidOut`, `Section.read?_of_holds`: the parts;
- `Image.sectionEntry_le_of_parse`: headers that can be read have their whole section table in the file;
- `Image.parse_of_layout`: any file that holds the headers of an image, and one that is cut off inside of them.
-/
import CilPatch.Pe.Layout
import CilPatch.Proofs.Overlay
import CilPatch.Proofs.Records

namespace CilPatch

open Bytes (Holds)

namespace Pe

variable {file : Bytes}

/-! ## Sections -/

namespace Section

variable {s : Section}

/-- a table entry is read as the section it was written for -/
theorem read?_of_holds (hfits : s.Fits) {off : Nat} (h : file.Holds off s.entry) : read? file off = some s := by
  have hname := hfits.nameLength
  have hpadded : (s.name ++ List.replicate (8 - s.name.length) 0).length = 8 := by
    simp only [List.length_append, List.length_replicate]
    omega
  have hslice : file.slice? off 8 = some (s.name ++ List.replicate (8 - s.name.length) 0).toArray := by
    have := Bytes.slice?_of_holds h.left.left.left.left (List.ne_nil_of_length_eq_add_one hpadded)
    rw [hpadded] at this
    exact this
  have hvirtualSize : file.u32? (off + 8) = some s.virtualSize := by
    have := h.left.left.left.right
    rw [hpadded] at this
    exact Bytes.read?_of_holds_lt (by omega) hfits.virtualSize this
  have hvirtualAddress : file.u32? (off + 12) = some s.virtualAddress := by
    have := h.left.left.right
    rw [List.length_append, hpadded, Bytes.length_toLE] at this
    exact Bytes.read?_of_holds_lt (by omega) hfits.virtualAddress this
  have hrawSize : file.u32? (off + 16) = some s.rawSize := by
    have := h.left.right
    rw [List.length_append, List.length_append, hpadded, Bytes.length_toLE, Bytes.length_toLE] at this
    exact Bytes.read?_of_holds_lt (by omega) hfits.rawSize this
  have hrawPointer : file.u32? (off + 20) = some s.rawPointer := by
    have := h.right
    rw [List.length_append, List.length_append, List.length_append, hpadded, Bytes.length_toLE, Bytes.length_toLE,
      Bytes.length_toLE] at this
    exact Bytes.read?_of_holds_lt (by omega) hfits.rawPointer this
  simp only [read?, hslice, hvirtualSize, hvirtualAddress, hrawSize, hrawPointer, Option.bind_eq_bind,
    Option.bind_some, Text.untilNul_append_replicate hfits.name]

/-- an entry that can be read lies inside the file, up to its last number that counts -/
theorem le_size_of_read? {off : Nat} (h : read? file off = some s) : off + 24 ≤ file.size := by
  simp only [read?, Option.bind_eq_bind, Option.bind_eq_some_iff] at h
  obtain ⟨name, -, virtualSize, -, virtualAddress, -, rawSize, -, rawPointer, hrawPointer, -⟩ := h
  exact (Bytes.eq_leAt_of_read? hrawPointer).1

end Section

/-! ## Headers in front of the section table -/

variable {image : Image} {p : Placement}

theorem CoffHeader.read?_of_laidOut (hfits : image.Fits p) (h : image.LaidOut p file) :
    CoffHeader.read? file (p.lfanew + 4) = some ⟨image.machine, image.sections.length, p.optionalSize⟩ := by
  have hmachine : file.u16? (p.lfanew + 4) = some image.machine :=
    Bytes.read?_of_holds_lt (by omega) hfits.machine h.machine
  have hcount : file.u16? (p.lfanew + 4 + 2) = some image.sections.length :=
    Bytes.read?_of_holds_lt (by omega) hfits.sectionCount h.sectionCount
  have hsize : file.u16? (p.lfanew + 4 + 16) = some p.optionalSize :=
    Bytes.read?_of_holds_lt (by omega) hfits.optionalSize h.optionalSize
  simp only [read?, hmachine, hcount, hsize, Option.bind_eq_bind, Option.bind_some]

namespace OptionalHeader

theorem readDirectory?_of_holds {off : Nat} {d : DataDirectory} (hrva : d.rva < Bytes.limit 4)
    (hsize : d.size < Bytes.limit 4) (h : file.Holds off (Bytes.toLE 4 d.rva ++ Bytes.toLE 4 d.size)) :
    readDirectory? file off = some d := by
  have hfirst : file.u32? off = some d.rva := Bytes.read?_of_holds_lt (by omega) hrva h.left
  have hsecond : file.u32? (off + 4) = some d.size := by
    have := h.right
    rw [Bytes.length_toLE] at this
    exact Bytes.read?_of_holds_lt (by omega) hsize this
  simp only [readDirectory?, hfirst, hsecond, Option.bind_eq_bind, Option.bind_some]

theorem read_of_laidOut (hfits : image.Fits p) (h : image.LaidOut p file) :
    OptionalHeader.read file p.optional = .ok ⟨image.pe32Plus, image.cliHeader⟩ := by
  have hmagic : (if image.pe32Plus then 0x20B else 0x10B) < Bytes.limit 2 := by
    split <;> decide
  have hkind : kind? (if image.pe32Plus then 0x20B else 0x10B) = some image.pe32Plus := by
    cases image.pe32Plus <;> rfl
  refine read_eq_ok_iff.2 ⟨_, p.directoryCount, Bytes.read?_of_holds_lt (by omega) hmagic h.kind, hkind,
    Bytes.read?_of_holds_lt (by omega) hfits.directoryCount h.directoryCount, ?_⟩
  split_ifs with hlisted
  · exact readDirectory?_of_holds hfits.cliRva hfits.cliSize (h.cli hlisted)
  · exact hfits.cliAbsent (Nat.not_lt.1 hlisted)

end OptionalHeader

/-! ## Images -/

namespace Image

theorem readSections_of_laidOut (hfits : image.Fits p) (h : image.LaidOut p file) :
    readSections file (p.optional + p.optionalSize) image.sections.length = .ok image.sections := by
  refine mapM_range_eq_ok_iff.2 ⟨rfl, ?_⟩
  intro i s hi
  have hread : Section.read? file (p.optional + p.optionalSize + i * Section.entrySize) = some s :=
    Section.read?_of_holds (hfits.sections s (List.mem_of_getElem? hi)) (h.sections i s hi)
  simp only [hread]

theorem parse_eq_of_laidOut (hfits : image.Fits p) (h : image.LaidOut p file) : parse file = .ok image :=
  parse_eq_ok_iff.2 ⟨p.lfanew, ⟨image.machine, image.sections.length, p.optionalSize⟩,
    Bytes.read?_of_holds_lt (by omega) (by decide) h.dos, Bytes.read?_of_holds_lt (by omega) hfits.lfanew h.lfanew,
    Bytes.read?_of_holds_lt (by omega) (by decide) h.signature, CoffHeader.read?_of_laidOut hfits h,
    OptionalHeader.read_of_laidOut hfits h, readSections_of_laidOut hfits h, rfl⟩

/-- the places of the headers are those that the file tells of, and the whole section table is in it -/
theorem sectionEntry_le_of_parse (h : parse file = .ok image) : ∃ lfanew coff, file.u32? 0x3C = some lfanew ∧
    CoffHeader.read? file (lfanew + 4) = some coff ∧ image.sections.length = coff.sectionCount ∧
    ∀ i, i < coff.sectionCount → lfanew + 24 + coff.optionalSize + i * Section.entrySize + 24 ≤ file.size := by
  obtain ⟨lfanew, coff, -, hlfanew, -, hcoff, -, hsections, -⟩ := parse_eq_ok_iff.1 h
  obtain ⟨hlength, hall⟩ := mapM_range_eq_ok_iff.1 hsections
  refine ⟨lfanew, coff, hlfanew, hcoff, hlength, ?_⟩
  intro i hi
  have hread := hall i _ (List.getElem?_eq_getElem (by omega))
  split at hread
  · cases hread
  · rename_i s hs
    exact Section.le_size_of_read? hs

/-- a file that is cut off before the end of its section table has no headers -/
theorem exists_error_of_extract (hfits : image.Fits p) (h : image.LaidOut p file) {n i : Nat}
    (hi : i < image.sections.length) (hn : n < p.sectionEntry i + 24) : ∃ e, parse (file.extract 0 n) = .error e := by
  cases hcut : parse (file.extract 0 n) with
  | error e => exact ⟨e, rfl⟩
  | ok other =>
    -- what the first part says, the whole file says too, so both place the section table alike
    have hwhole : file.extract 0 n ++ file.extract n = file := by simp
    obtain ⟨lfanew, coff, hlfanew, hcoff, -, hall⟩ := sectionEntry_le_of_parse hcut
    have hlfanew' := Bytes.read?_append (file.extract n) hlfanew
    have hcoff' := CoffHeader.read?_append (file.extract n) hcoff
    rw [hwhole] at hlfanew' hcoff'
    obtain rfl : p.lfanew = lfanew :=
      Option.some.inj ((Bytes.read?_of_holds_lt (by omega) hfits.lfanew h.lfanew).symm.trans hlfanew')
    obtain rfl := Option.some.inj ((CoffHeader.read?_of_laidOut hfits h).symm.trans hcoff')
    have hle : p.sectionEntry i + 24 ≤ (file.extract 0 n).size := hall i hi
    rw [Array.size_extract] at hle
    omega

/-- **Every header layout is read back.** A file that holds the headers of an image at their places is read as that
image, whatever stands in between, beside and behind them: with any distance to the headers, either kind of optional
header, with and without a CLI directory, and any section table. Cut off before the end of the last table entry that
counts, it is refused. -/
theorem parse_of_layout (image : Image) (p : Placement) (file : Bytes) (hfits : image.Fits p)
    (h : image.LaidOut p file) : parse file = .ok image ∧ (image.sections ≠ [] →
      ∀ n, n < p.sectionEntry (image.sections.length - 1) + 24 → ∃ e, parse (file.extract 0 n) = .error e) := by
  refine ⟨parse_eq_of_laidOut hfits h, ?_⟩
  intro hne n hn
  have hlast : image.sections.length - 1 < image.sections.length := by
    have := List.length_pos_iff.2 hne
    omega
  exact exists_error_of_extract hfits h hlast hn

end Image

end Pe

/-! ### An image with two sections -/

namespace Small

/-- the second name takes all of its eight bytes -/
def plusImage : Pe.Image where
  pe32Plus := true
  machine := 0x8664
  sections :=
    [⟨Text.ascii ".text", 0x400, 0x2000, 0x400, 424⟩, ⟨Text.ascii ".managed", 0, 0xFFFFFFFF, 0x10, 0xFFFFFFF0⟩]
  cliHeader := ⟨0x2008, 72⟩

def plusPlacement : Pe.Placement := ⟨96, 240, 16⟩

/-- its headers, with other bytes in between, which ends with the last number that counts -/
def plusFile : Bytes := List.toArray <| List.flatten
  [Text.ascii "MZ", List.replicate 58 0xFF, Bytes.toLE 4 96, List.replicate 32 0xFF,
    Text.ascii "PE", [0, 0], Bytes.toLE 2 0x8664, Bytes.toLE 2 2, List.replicate 12 0xFF, Bytes.toLE 2 240, [0xFF, 0xFF],
    Bytes.toLE 2 0x20B, List.replicate 106 0xFF, Bytes.toLE 4 16, List.replicate 112 0xFF,
    Bytes.toLE 4 0x2008, Bytes.toLE 4 72, List.replicate 8 0xFF,
    (⟨Text.ascii ".text", 0x400, 0x2000, 0x400, 424⟩ : Pe.Section).entry, List.replicate 16 0xFF,
    (⟨Text.ascii ".managed", 0, 0xFFFFFFFF, 0x10, 0xFFFFFFF0⟩ : Pe.Section).entry]

theorem plusImage_fits : plusImage.Fits plusPlacement where
  lfanew := by decide
  optionalSize := by decide
  directoryCount := by decide
  machine := by decide
  sectionCount := by decide
  sections := by
    intro s hs
    simp only [plusImage, List.mem_cons, List.not_mem_nil, or_false] at hs
    rcases hs with rfl | rfl <;> exact ⟨by decide, by decide, by decide, by decide, by decide, by decide⟩
  cliRva := by decide
  cliSize := by decide
  cliAbsent := by decide

theorem plusImage_laidOut : plusImage.LaidOut plusPlacement plusFile where
  dos := by decide +kernel
  lfanew := by decide +kernel
  signature := by decide +kernel
  machine := by decide +kernel
  sectionCount := by decide +kernel
  optionalSize := by decide +kernel
  kind := by decide +kernel
  directoryCount := by decide +kernel
  cli := by decide +kernel
  sections := by
    intro i s hi
    rcases i with _ | _ | i
    · cases hi
      decide +kernel
    · cases hi
      decide +kernel
    · simp [plusImage] at hi

end Small

/-- a 64-bit image is read, and refused when its last byte is missing -/
theorem Pe.Image.parse_of_layout_small : Small.plusImage.Fits Small.plusPlacement ∧
    Small.plusImage.LaidOut Small.plusPlacement Small.plusFile ∧ Small.plusImage.sections ≠ [] ∧
    Pe.Image.parse Small.plusFile = .ok Small.plusImage ∧
    423 < Small.plusPlacement.sectionEntry 1 + 24 ∧ ∃ e, Pe.Image.parse (Small.plusFile.extract 0 423) = .error e := by
  have hne : Small.plusImage.sections ≠ [] := List.cons_ne_nil _ _
  have hlt : 423 < Small.plusPlacement.sectionEntry 1 + 24 := by decide
  obtain ⟨hparse, hcut⟩ := Pe.Image.parse_of_layout Small.plusImage Small.plusPlacement Small.plusFile
    Small.plusImage_fits Small.plusImage_laidOut
  exact ⟨Small.plusImage_fits, Small.plusImage_laidOut, hne, hparse, hlt, hcut hne 423 hlt⟩

end CilPatch
