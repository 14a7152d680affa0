/-
Where a located body lies in relation to its section.

An address belongs to a section up to the larger of its virtual and its raw size, its offset is computed with 32-bit
arithmetic, and header and code only have to lie inside the file. So a body may lie behind the raw data of its section,
run past it, or, where the offset wraps around, stand in front of it.

- `Section.fits_of_read?`: the numbers of a section that was read are 32-bit;
- `locate_placed`: a located body lies inside the file, and exactly when it lies inside the raw data of its section;
- `locate_outside`: one that does not.
-/
import CilPatch.Pe.Layout
import CilPatch.Proofs.Survival

namespace CilPatch

open Bytes (Span AgreeOn Holds)

/-! ## Sections that were read -/

namespace Pe

theorem Section.fits_of_read? {file : Bytes} {off : Nat} {s : Section} (h : Section.read? file off = some s) :
    s.Fits := by
  simp only [Section.read?, Option.bind_eq_bind, Option.bind_eq_some_iff] at h
  obtain ⟨name, hname, virtualSize, hvs, virtualAddress, hva, rawSize, hrs, rawPointer, hrp, h⟩ := h
  cases h
  have hlt {v at' : Nat} (hread : file.u32? at' = some v) : v < Bytes.limit 4 := by
    rw [(Bytes.eq_leAt_of_read? hread).2]
    exact Bytes.leAt_lt file 4 at'
  have hsize : name.toList.length ≤ 8 := by
    obtain ⟨-, rfl⟩ := Bytes.slice?_eq_some_iff.1 hname
    simp only [Array.length_toList, Array.size_extract]
    omega
  have hshorter : (Text.untilNul name.toList).length ≤ name.toList.length := (List.takeWhile_prefix _).length_le
  exact ⟨hshorter.trans hsize, Text.zero_not_mem_untilNul _, hlt hvs, hlt hva, hlt hrs, hlt hrp⟩

theorem Image.fits_of_parse {file : Bytes} {image : Image} (h : Image.parse file = .ok image) :
    ∀ s ∈ image.sections, s.Fits := by
  intro s hs
  obtain ⟨lfanew, coff, -, -, -, -, -, hsections, -⟩ := Image.parse_eq_ok_iff.1 h
  obtain ⟨i, hi⟩ := List.mem_iff_getElem?.1 hs
  have hread := (mapM_range_eq_ok_iff.1 hsections).2 i s hi
  split at hread
  · cases hread
  · rename_i s' hs'
    cases hread
    exact Section.fits_of_read? hs'

namespace Section

variable {s : Section} {rva n : Nat}

/-- the part of the file that the section is loaded from -/
def raw (s : Section) : Span := ⟨s.rawPointer, s.rawSize⟩

/-- the raw data has `n` bytes from the address on, and their offset does not wrap around -/
def Backs (s : Section) (rva n : Nat) : Prop :=
  rva - s.virtualAddress + s.rawPointer < 0x100000000 ∧ rva - s.virtualAddress + n ≤ s.rawSize

instance (s : Section) (rva n : Nat) : Decidable (s.Backs rva n) := inferInstanceAs (Decidable (_ ∧ _))

/-- bytes that are loaded from an address stand in the raw data exactly when it backs them -/
theorem backs_iff (hs : s.Fits) (hc : s.contains rva = true) :
    s.raw.start ≤ s.offsetOf rva ∧ s.offsetOf rva + n ≤ s.raw.stop ↔ s.Backs rva n := by
  obtain ⟨hle, hlt⟩ := contains_iff.1 hc
  have hva := hs.virtualSize
  have hraw := hs.rawSize
  have hptr := hs.rawPointer
  simp only [Bytes.limit, extent] at hva hraw hptr hlt
  simp only [raw, Span.stop, Backs, offsetOf]
  rcases Nat.lt_or_ge (rva - s.virtualAddress + s.rawPointer) 0x100000000 with hsmall | hbig
  · rw [Nat.mod_eq_of_lt hsmall]
    omega
  · -- the offset wraps around once, to a place in front of the raw data
    have hwrap : (rva - s.virtualAddress + s.rawPointer) % 0x100000000
        = rva - s.virtualAddress + s.rawPointer - 0x100000000 := by omega
    rw [hwrap]
    omega

end Section

theorem exists_owner {sections : List Section} {rva off : Nat} (h : fileOffset? sections rva = some off) :
    ∃ s ∈ sections, owner? sections rva = some s ∧ s.contains rva = true ∧ off = s.offsetOf rva := by
  obtain ⟨s, hs, rfl⟩ := Option.map_eq_some_iff.1 h
  have hcovers := List.find?_some hs
  exact ⟨s, List.mem_of_find?_eq_some hs, hs, hcovers, rfl⟩

end Pe

/-- the metadata is found through the places of addresses, whatever sections they come from -/
theorem Metadata.parse_congr {sections other : List Pe.Section}
    (h : ∀ rva, Pe.fileOffset? other rva = Pe.fileOffset? sections rva) (file : Bytes) (cliRva : Nat) :
    parse file other cliRva = parse file sections cliRva := by
  simp only [parse, locateRoot, h]

/-! ## Located bodies -/

namespace LocatedBody

/-- header and code -/
def size (l : LocatedBody) : Nat := l.header.headerSize + l.header.codeSize

/-- the whole body stands in the raw data of the section -/
def Within (l : LocatedBody) (s : Pe.Section) : Prop :=
  s.raw.start ≤ l.fileOffset ∧ l.fileOffset + l.size ≤ s.raw.stop

instance (l : LocatedBody) (s : Pe.Section) : Decidable (l.Within s) := inferInstanceAs (Decidable (_ ∧ _))

end LocatedBody

namespace Module

variable {m : Module} {d : MethodDescriptor} {l : LocatedBody}

/-- a patch of the method overwrites the body that was located for it -/
theorem overwritten_of_plan {type method : Text} {r : Replacement} (h : m.plan type method = .ok r)
    (hl : m.locate r.summary.method = .ok l) : r.summary.overwritten = ⟨l.fileOffset, l.size⟩ := by
  obtain ⟨t, d, l', -, -, hl', hr⟩ := plan_eq_ok_iff.1 h
  obtain ⟨-, -, hs⟩ := replace_eq_ok_iff.1 hr
  have hspan := (BodyHeader.span_of_readAt (locate_eq_ok_iff.1 hl').2.2.2.1).2
  simp only [hs] at hl ⊢
  cases hl'.symm.trans hl
  simp only [PatchSummary.overwritten, LocatedBody.size, hspan]

/-- where a body was located, in a file that holds the bytes of the module; `s` is the section of its address -/
structure Placed (m : Module) (d : MethodDescriptor) (l : LocatedBody) (s : Pe.Section) : Prop where
  owner : Pe.owner? m.image.sections d.rva = some s
  offset : l.fileOffset = s.offsetOf d.rva
  inside : l.fileOffset + l.size ≤ m.bytes.size
  within_iff : l.Within s ↔ s.Backs d.rva l.size
  /-- then no patch of the method changes a byte outside of the raw data -/
  frame : s.Backs d.rva l.size → ∀ type method buffer summary out, m.patch type method buffer = (.ok summary, out) →
    summary.method = d → ∀ i, ¬ s.raw.Mem i → out[i]? = buffer[i]?

end Module

/-! ## Main result -/

/-- **A located body lies in its file, and in its section as far as the section backs it.** The raw data of the section
that the address belongs to holds the whole body exactly when the offset does not wrap around and the raw data does not
end before the body does. A patch of the method then changes no other section and no header. -/
theorem locate_placed (b : Bytes) (origin : Text) (m : Module) (d : MethodDescriptor) (l : LocatedBody)
    (hm : Module.ofBytes b origin = .ok m) (hl : m.locate d = .ok l) : ∃ s, m.Placed d l s := by
  obtain ⟨rfl, -, himage, -⟩ := Module.ofBytes_eq_ok_iff.1 hm
  obtain ⟨-, hoff, -, hread, -, hin⟩ := Module.locate_eq_ok_iff.1 hl
  obtain ⟨s, hmem, howner, hcovers, hoffset⟩ := Pe.exists_owner hoff
  have hiff : l.Within s ↔ s.Backs d.rva l.size := by
    rw [LocatedBody.Within, hoffset]
    exact Pe.Section.backs_iff (Pe.Image.fits_of_parse himage s hmem) hcovers
  have hinside : l.fileOffset + l.size ≤ m.bytes.size := by
    rw [LocatedBody.size, ← Nat.add_assoc]
    exact hin
  refine ⟨s, howner, hoffset, hinside, hiff, ?_⟩
  rintro hbacks type method buffer summary out hpatch rfl i hi
  have hbuffer : buffer.size = m.bytes.size := by
    by_contra hne
    rw [Module.patch, if_pos hne] at hpatch
    cases hpatch
  obtain ⟨r, hplan, rfl, rfl⟩ := (Module.patch_eq_ok_iff hbuffer).1 hpatch
  have hfits : r.Fits buffer.size := by
    rw [hbuffer]
    exact Module.fits_of_plan hplan
  rw [Replacement.getElem?_apply hfits, if_neg]
  -- an overwritten byte is one of the body, and those are raw data
  intro hover
  obtain ⟨hstart, hstop⟩ := hiff.2 hbacks
  rw [Module.overwritten_of_plan hplan hl] at hover
  exact hi ⟨hstart.trans hover.1, hover.2.trans_le hstop⟩

/-! ### Bodies of the small module -/

namespace Small

/-- the descriptor of `F` -/
def methodF : MethodDescriptor := patchF.1.summary.method

def locatedF : { l : LocatedBody // opened.locate methodF = .ok l } := ⟨⟨360, ⟨.tiny, 1, 4, 0, false⟩⟩, by decide +kernel⟩

/-- the raw data of the section ends at the body of `F` -/
def shortRaw : Bytes := file.write 320 (Bytes.toLE 4 16)

def shortSection : Pe.Section := ⟨Text.ascii ".text", 0x400, 0x1000, 16, 344⟩

def shortImage : { image : Pe.Image // Pe.Image.parse shortRaw = .ok image } :=
  ⟨⟨false, 0x14C, [shortSection], ⟨0x1000, 72⟩⟩, by decide +kernel⟩

/-- addresses are mapped as before, since the virtual size is the larger one -/
theorem fileOffset?_short (rva : Nat) : Pe.fileOffset? [shortSection] rva = Pe.fileOffset? sections rva := by
  have hextent : shortSection.extent = 0x400 := by decide
  have hcontains : shortSection.contains rva =
      (⟨Text.ascii ".text", 0x400, 0x1000, 0x400, 344⟩ : Pe.Section).contains rva := by
    rw [Pe.Section.contains, Pe.Section.contains, hextent]
    rfl
  simp only [Pe.fileOffset?, Pe.owner?, sections, List.find?_cons, hcontains, List.find?_nil]
  split <;> rfl

def openedShort : Module := ⟨shortRaw, Module.inMemory, shortImage, metadata⟩

def locatedShort : { l : LocatedBody // openedShort.locate methodF = .ok l } :=
  ⟨⟨360, ⟨.tiny, 1, 4, 0, false⟩⟩, by decide +kernel⟩

theorem ofBytes_short : Module.ofBytes shortRaw Module.inMemory = .ok openedShort := by
  have hfit : 320 + (Bytes.toLE 4 16).length ≤ file.size := by decide +kernel
  have hconsulted : Metadata.consulted file sections 0x1000 = [⟨352, 8⟩, ⟨408, 162⟩] := by
    have hcli : Pe.fileOffset? sections 0x1000 = some 344 := by decide
    simp only [Metadata.consulted, hcli, places.2]
  have hmisses : ∀ c ∈ Metadata.consulted file sections 0x1000, Span.Disjoint ⟨320, (Bytes.toLE 4 16).length⟩ c := by
    rw [hconsulted]
    decide
  have hsize : shortRaw.size = file.size := Bytes.size_write _ _ _
  have hfile : Metadata.parse file sections 0x1000 = .ok metadata.1 := (Module.ofBytes_eq_ok_iff.1 ofBytes_file).2.2.2
  have hmetadata : Metadata.parse shortRaw sections 0x1000 = .ok metadata.1 :=
    Metadata.parse_of_agree hfile hsize fun c hc => Bytes.agreeOn_write hfit (hmisses c hc)
  refine Module.ofBytes_eq_ok_iff.2 ⟨by rw [openedShort], rfl, shortImage.2, ?_⟩
  exact (Metadata.parse_congr fileOffset?_short shortRaw 0x1000).trans hmetadata

end Small

/-- the body of `F` stands in the raw data of its section -/
theorem locate_placed_small : ∃ s, Small.opened.Placed Small.methodF Small.locatedF s ∧ Small.locatedF.1.Within s := by
  obtain ⟨s, hs⟩ := locate_placed Small.file Module.inMemory Small.opened Small.methodF Small.locatedF Small.ofBytes_file
    Small.locatedF.2
  refine ⟨s, hs, hs.within_iff.2 ?_⟩
  have howner : Pe.owner? Small.sections Small.methodF.rva = some s := hs.owner
  cases howner
  decide

/-- a body may stand behind the raw data of its section, where the section is mapped but not loaded from the file -/
theorem locate_outside : ∃ s, Module.ofBytes Small.shortRaw Module.inMemory = .ok Small.openedShort ∧
    Small.openedShort.locate Small.methodF = .ok Small.locatedShort ∧
    Pe.owner? Small.openedShort.image.sections Small.methodF.rva = some s ∧ ¬ Small.locatedShort.1.Within s :=
  ⟨Small.shortSection, Small.ofBytes_short, Small.locatedShort.2, by decide, by decide⟩

end CilPatch
