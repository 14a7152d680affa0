/-
Opening a module looks at the consulted bytes of the file and at nothing else.

`ofBytes_of_looksLike` is the main result: a file of the same size with the same bytes in every consulted span opens
with the same image and the same metadata. The lemmas before it say when the headers (`parse_eq_ok_iff`) and the
metadata root (`locateRoot_eq_ok_iff`) are found.
-/
import Mathlib.Tactic
import CilPatch.Consulted
import CilPatch.Proofs.Agreement
import CilPatch.Proofs.Traversal

namespace CilPatch

open Bytes (Span AgreeOn)

/-! ## Headers -/

namespace Pe

variable {a b : Bytes}

theorem OptionalHeader.read_eq_ok_iff {file : Bytes} {off : Nat} {h : OptionalHeader} :
    OptionalHeader.read file off = .ok h ↔ ∃ magic count, file.u16? off = some magic ∧ kind? magic = some h.pe32Plus ∧
      file.u32? (off + directoryCountOffset h.pe32Plus) = some count ∧
      if cliDirectory < count then
        readDirectory? file (off + directoryCountOffset h.pe32Plus + 4 + cliDirectory * 8) = some h.cliHeader
      else h.cliHeader = ⟨0, 0⟩ := by
  unfold OptionalHeader.read
  refine ⟨fun e => ?_, fun e => ?_⟩
  · split at e
    · cases e
    · rename_i magic hmagic
      split at e
      · cases e
      · rename_i plus hkind
        split at e
        · cases e
        · rename_i count hcount
          split_ifs at e with hlt
          · split at e
            · cases e
            · rename_i cli hcli
              cases e
              exact ⟨magic, count, hmagic, hkind, hcount, by rw [if_pos hlt]; exact hcli⟩
          · cases e
            exact ⟨magic, count, hmagic, hkind, hcount, by rw [if_neg hlt]⟩
  · obtain ⟨magic, count, hmagic, hkind, hcount, hcli⟩ := e
    simp only [hmagic, hkind, hcount]
    split_ifs at hcli ⊢
    · simp only [hcli]
    · rw [← hcli]

/-! ### The same headers in another file -/

theorem CoffHeader.optionalSize_of_read? {file : Bytes} {off : Nat} {h : CoffHeader}
    (e : CoffHeader.read? file off = some h) : h.optionalSize = file.leAt 2 (off + 16) := by
  simp only [CoffHeader.read?, Option.bind_eq_bind, Option.bind_eq_some_iff] at e
  obtain ⟨machine, -, count, -, size, hsize, e⟩ := e
  cases e
  exact (Bytes.eq_leAt_of_read? hsize).2

theorem CoffHeader.read?_congr {off : Nat} (hsize : b.size = a.size) (h1 : AgreeOn a b ⟨off, 4⟩)
    (h2 : AgreeOn a b ⟨off + 16, 2⟩) : CoffHeader.read? b off = CoffHeader.read? a off := by
  have hm : b.u16? off = a.u16? off := Bytes.read?_congr hsize (h1.mono (Span.sub_mk le_rfl (by simp [Span.stop])))
  have hc : b.u16? (off + 2) = a.u16? (off + 2) :=
    Bytes.read?_congr hsize (h1.mono (Span.sub_mk (by simp) (by simp [Span.stop])))
  have hs : b.u16? (off + 16) = a.u16? (off + 16) := Bytes.read?_congr hsize h2
  rw [CoffHeader.read?, CoffHeader.read?, hm, hc, hs]

theorem OptionalHeader.read_of_agree {off : Nat} {h : OptionalHeader} (e : OptionalHeader.read a off = .ok h)
    (hsize : b.size = a.size) (h1 : AgreeOn a b ⟨off, 2⟩)
    (h2 : AgreeOn a b ⟨off + directoryCountOffset h.pe32Plus, 4⟩)
    (h3 : cliDirectory < a.leAt 4 (off + directoryCountOffset h.pe32Plus) →
      AgreeOn a b ⟨off + directoryCountOffset h.pe32Plus + 4 + cliDirectory * 8, 8⟩) :
    OptionalHeader.read b off = .ok h := by
  obtain ⟨magic, count, hmagic, hkind, hcount, hcli⟩ := read_eq_ok_iff.1 e
  have hc := (Bytes.eq_leAt_of_read? hcount).2
  refine read_eq_ok_iff.2 ⟨magic, count, ?_, hkind, ?_, ?_⟩
  · rw [← hmagic]; exact Bytes.read?_congr hsize h1
  · rw [← hcount]; exact Bytes.read?_congr hsize h2
  · split_ifs at hcli ⊢ with hlt
    · have hd := h3 (hc ▸ hlt)
      have hr : b.u32? (off + directoryCountOffset h.pe32Plus + 4 + cliDirectory * 8)
          = a.u32? (off + directoryCountOffset h.pe32Plus + 4 + cliDirectory * 8) :=
        Bytes.read?_congr hsize (hd.mono (Span.sub_mk le_rfl (by simp [Span.stop])))
      have hs : b.u32? (off + directoryCountOffset h.pe32Plus + 4 + cliDirectory * 8 + 4)
          = a.u32? (off + directoryCountOffset h.pe32Plus + 4 + cliDirectory * 8 + 4) :=
        Bytes.read?_congr hsize (hd.mono (Span.sub_mk (by simp) (by simp [Span.stop])))
      rw [← hcli, readDirectory?, readDirectory?, hr, hs]
    · exact hcli

theorem Section.read?_congr {off : Nat} (hsize : b.size = a.size) (h : AgreeOn a b ⟨off, 24⟩) :
    Section.read? b off = Section.read? a off := by
  have hn : b.slice? off 8 = a.slice? off 8 :=
    Bytes.slice?_congr hsize (h.mono (Span.sub_mk le_rfl (by simp [Span.stop])))
  have hu (k : Nat) (hk : k ≤ 20) : b.u32? (off + k) = a.u32? (off + k) :=
    Bytes.read?_congr hsize (h.mono (Span.sub_mk (by simp) (by simp [Span.stop]; omega)))
  rw [Section.read?, Section.read?, hn, hu 8 (by omega), hu 12 (by omega), hu 16 (by omega), hu 20 (by omega)]

namespace Image

theorem parse_eq_ok_iff {file : Bytes} {image : Image} :
    parse file = .ok image ↔ ∃ lfanew coff, file.u16? 0 = some 0x5A4D ∧ file.u32? 0x3C = some lfanew ∧
      file.u32? lfanew = some 0x4550 ∧ CoffHeader.read? file (lfanew + 4) = some coff ∧
      OptionalHeader.read file (lfanew + 24) = .ok ⟨image.pe32Plus, image.cliHeader⟩ ∧
      readSections file (lfanew + 24 + coff.optionalSize) coff.sectionCount = .ok image.sections ∧
      image.machine = coff.machine := by
  unfold parse readHeaders
  refine ⟨fun h => ?_, fun h => ?_⟩
  · split_ifs at h with hdos
    split at h
    · cases h
    · rename_i lfanew hlfanew
      split_ifs at h with hsig
      split at h
      · rename_i coff hcoff
        simp only [bind_eq_ok_iff] at h
        obtain ⟨optional, hopt, sections, hsec, h⟩ := h
        cases h
        exact ⟨lfanew, coff, not_not.1 hdos, hlfanew, not_not.1 hsig, hcoff, hopt, hsec, rfl⟩
      · cases h
  · obtain ⟨lfanew, coff, hdos, hlfanew, hsig, hcoff, hopt, hsec, hm⟩ := h
    rw [if_neg (not_not.2 hdos)]
    simp only [hlfanew, hcoff]
    rw [if_neg (not_not.2 hsig), bind_eq_ok_iff]
    refine ⟨_, hopt, bind_eq_ok_iff.2 ⟨_, hsec, ?_⟩⟩
    rw [← hm]
    rfl

/-- the headers are found in every file of the same size that has the same bytes in their consulted spans -/
theorem parse_of_agree {image : Image} (h : parse a = .ok image) (hsize : b.size = a.size)
    (hag : ∀ s ∈ image.consulted a, AgreeOn a b s) : parse b = .ok image := by
  obtain ⟨lfanew, coff, hdos, hlfanew, hsig, hcoff, hopt, hsec, hmachine⟩ := parse_eq_ok_iff.1 h
  have hl : lfanew = a.leAt 4 0x3C := (Bytes.eq_leAt_of_read? hlfanew).2
  have hos := CoffHeader.optionalSize_of_read? hcoff
  have hlen : image.sections.length = coff.sectionCount := (mapM_range_eq_ok_iff.1 hsec).1
  -- every span of the list, named by its place in the headers
  have h0 : AgreeOn a b ⟨0, 2⟩ := hag _ (by simp [consulted])
  have h1 : AgreeOn a b ⟨0x3C, 4⟩ := hag _ (by simp [consulted])
  have h2 : AgreeOn a b ⟨lfanew, 4⟩ := hag _ (by simp [consulted, hl])
  have h3 : AgreeOn a b ⟨lfanew + 4, 4⟩ := hag _ (by simp [consulted, hl])
  have h4 : AgreeOn a b ⟨lfanew + 4 + 16, 2⟩ := hag _ (by simp [consulted, hl])
  have h5 : AgreeOn a b ⟨lfanew + 24, 2⟩ := hag _ (by simp [consulted, hl])
  have h6 : AgreeOn a b ⟨lfanew + 24 + OptionalHeader.directoryCountOffset image.pe32Plus, 4⟩ :=
    hag _ (by simp [consulted, hl])
  have h7 (hlt : OptionalHeader.cliDirectory <
      a.leAt 4 (lfanew + 24 + OptionalHeader.directoryCountOffset image.pe32Plus)) :
      AgreeOn a b ⟨lfanew + 24 + OptionalHeader.directoryCountOffset image.pe32Plus + 4
        + OptionalHeader.cliDirectory * 8, 8⟩ := by
    rw [hl] at hlt ⊢
    exact hag _ (by simp [consulted, hlt])
  have h8 (i : Nat) (hi : i < coff.sectionCount) :
      AgreeOn a b ⟨lfanew + 24 + coff.optionalSize + i * Section.entrySize, 24⟩ := by
    refine hag _ (List.mem_append_right _ (List.mem_map.2 ⟨i, by simpa [hlen] using hi, ?_⟩))
    rw [hos, hl]
  refine parse_eq_ok_iff.2 ⟨lfanew, coff, ?_, ?_, ?_, ?_, ?_, ?_, hmachine⟩
  · rw [← hdos]; exact Bytes.read?_congr hsize h0
  · rw [← hlfanew]; exact Bytes.read?_congr hsize h1
  · rw [← hsig]; exact Bytes.read?_congr hsize h2
  · rw [← hcoff]; exact CoffHeader.read?_congr hsize h3 h4
  · exact OptionalHeader.read_of_agree hopt hsize h5 h6 h7
  · refine mapM_range_congr hsec fun i hi => ?_
    simp only [Section.read?_congr hsize (h8 i hi)]

end Image

end Pe

/-! ## Metadata -/

namespace Metadata

variable {a b : Bytes}

/-- the root is where the CLI header says, inside the file -/
theorem locateRoot_eq_ok_iff {file root : Bytes} {sections : List Pe.Section} {cliRva : Nat} :
    locateRoot file sections cliRva = .ok root ↔ cliRva ≠ 0 ∧ ∃ cli rva size offset,
      Pe.fileOffset? sections cliRva = some cli ∧ file.u32? (cli + 8) = some rva ∧
      file.u32? (cli + 12) = some size ∧ Pe.fileOffset? sections rva = some offset ∧
      file.slice? offset size = some root := by
  unfold locateRoot
  refine ⟨fun h => ?_, fun h => ?_⟩
  · split_ifs at h with h0
    split at h
    · cases h
    · rename_i cli hcli
      split at h
      · rename_i rva size hrva hsize
        split at h
        · cases h
        · rename_i offset hoff
          split at h
          · cases h
          · rename_i root' hroot
            cases h
            exact ⟨h0, cli, rva, size, offset, hcli, hrva, hsize, hoff, hroot⟩
      · cases h
  · obtain ⟨h0, cli, rva, size, offset, hcli, hrva, hsize, hoff, hroot⟩ := h
    simp only [if_neg h0, hcli, hrva, hsize, hoff, hroot]

theorem parse_eq_ok_iff {file : Bytes} {sections : List Pe.Section} {cliRva : Nat} {md : Metadata} :
    parse file sections cliRva = .ok md ↔ ∃ root, locateRoot file sections cliRva = .ok root ∧ ofRoot root = .ok md :=
  bind_eq_ok_iff

/-- the metadata is found in every file of the same size that has the same bytes in its consulted spans -/
theorem parse_of_agree {sections : List Pe.Section} {cliRva : Nat} {md : Metadata}
    (h : parse a sections cliRva = .ok md) (hsize : b.size = a.size)
    (hag : ∀ s ∈ consulted a sections cliRva, AgreeOn a b s) : parse b sections cliRva = .ok md := by
  obtain ⟨root, hroot, hmd⟩ := parse_eq_ok_iff.1 h
  obtain ⟨h0, cli, rva, size, offset, hcli, hrva, hsz, hoff, hslice⟩ := locateRoot_eq_ok_iff.1 hroot
  have hr : rva = a.leAt 4 (cli + 8) := (Bytes.eq_leAt_of_read? hrva).2
  have hs : size = a.leAt 4 (cli + 12) := (Bytes.eq_leAt_of_read? hsz).2
  have hentry : AgreeOn a b ⟨cli + 8, 8⟩ := hag _ (by simp [consulted, hcli])
  have hspan : AgreeOn a b ⟨offset, size⟩ := hag _ (by simp [consulted, hcli, rootSpan, ← hr, hoff, hs])
  refine parse_eq_ok_iff.2 ⟨root, locateRoot_eq_ok_iff.2 ⟨h0, cli, rva, size, offset, hcli, ?_, ?_, hoff, ?_⟩, hmd⟩
  · rw [← hrva]; exact Bytes.read?_congr hsize (hentry.mono (Span.sub_mk le_rfl (by simp [Span.stop])))
  · rw [← hsz]; exact Bytes.read?_congr hsize (hentry.mono (Span.sub_mk (by simp) (by simp [Span.stop])))
  · rw [← hslice]; exact Bytes.slice?_congr hsize hspan

end Metadata

/-! ## Modules -/

namespace Module

theorem ofBytes_eq_ok_iff {b : Bytes} {origin : Text} {m : Module} :
    ofBytes b origin = .ok m ↔ m.bytes = b ∧ m.origin = origin ∧ Pe.Image.parse b = .ok m.image ∧
      Metadata.parse b m.image.sections m.image.cliHeader.rva = .ok m.metadata := by
  unfold ofBytes
  refine ⟨fun h => ?_, fun h => ?_⟩
  · split at h
    · cases h
    · rename_i image himage
      split at h
      · cases h
      · rename_i metadata hmetadata
        cases h
        exact ⟨rfl, rfl, himage, hmetadata⟩
  · obtain ⟨rfl, rfl, himage, hmetadata⟩ := h
    simp only [himage, hmetadata]

theorem bytes_of_ofBytes {b : Bytes} {origin : Text} {m : Module} (h : ofBytes b origin = .ok m) : m.bytes = b :=
  (ofBytes_eq_ok_iff.1 h).1

/-- a file that looks like the module opens as the same module, wherever either came from -/
theorem ofBytes_of_looksLike {m : Module} {b file : Bytes} {origin : Text} (h : ofBytes b origin = .ok m)
    (hlike : m.LooksLike file) (origin' : Text) :
    ofBytes file origin' = .ok { m with bytes := file, origin := origin' } := by
  obtain ⟨rfl, -, himage, hmetadata⟩ := ofBytes_eq_ok_iff.1 h
  obtain ⟨hsize, hag⟩ := hlike
  refine ofBytes_eq_ok_iff.2 ⟨rfl, rfl, ?_, ?_⟩
  · exact Pe.Image.parse_of_agree himage hsize fun s hs => hag s (List.mem_append_left _ hs)
  · exact Metadata.parse_of_agree hmetadata hsize fun s hs => hag s (List.mem_append_right _ hs)

end Module

end CilPatch
