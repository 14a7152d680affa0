/-
Bytes behind the end of a file change nothing that was found in it.

Signed modules and installers carry data behind the last section. Every check of the reader asks for at least so many
bytes and every scan stays in a part of the file that was cut out before, so what succeeds on a file succeeds on the file
with more bytes behind it, and gives the same.

- `Bytes.read?_append`, `Bytes.slice?_append`: reads;
- `Pe.Image.parse_append`, `Metadata.parse_append`: headers and metadata;
- `BodyHeader.readAt_append`, `Module.plan_append`: bodies and the plans to replace them;
- `overlay_inert`: opening and patching.
-/
import CilPatch.Proofs.Runs

namespace CilPatch

open Bytes (Span AgreeOn)

/-! ## Reads and writes -/

namespace Bytes

variable {b : Bytes} (x : Bytes)

/-- the bytes of the file are those of its extension -/
theorem agreeOn_append {off n : Nat} (h : off + n ≤ b.size) : AgreeOn b (b ++ x) ⟨off, n⟩ := by
  intro i hi
  simp only [Span.Mem, Span.stop] at hi
  rw [Array.getElem?_append_left (by omega)]

theorem leAt_append {width off : Nat} (h : off + width ≤ b.size) : (b ++ x).leAt width off = b.leAt width off :=
  (leAt_congr (agreeOn_append x h)).symm

theorem read?_append {width off v : Nat} (h : b.read? width off = some v) : (b ++ x).read? width off = some v := by
  obtain ⟨hle, rfl⟩ := eq_leAt_of_read? h
  rw [read?, if_pos (by rw [Array.size_append]; omega), leAt_append x hle]

theorem slice?_append {s : Bytes} {off n : Nat} (h : b.slice? off n = some s) : (b ++ x).slice? off n = some s := by
  obtain ⟨hle, rfl⟩ := slice?_eq_some_iff.1 h
  refine slice?_eq_some_iff.2 ⟨by rw [Array.size_append]; omega, Array.ext_getElem? fun i => ?_⟩
  simp only [Array.getElem?_extract, Array.size_append]
  by_cases hi : i < n
  · rw [if_pos (by omega), if_pos (by omega), Array.getElem?_append_left (by omega)]
  · rw [if_neg (by omega), if_neg (by omega)]

/-- a write inside the file leaves what is behind it -/
theorem write_append {off : Nat} {s : List UInt8} (h : off + s.length ≤ b.size) :
    (b ++ x).write off s = b.write off s ++ x := by
  apply Array.ext_getElem?
  intro i
  rw [getElem?_write (b ++ x) off s (by rw [Array.size_append]; omega)]
  rcases Nat.lt_or_ge i b.size with hlt | hge
  · rw [Array.getElem?_append_left hlt, Array.getElem?_append_left (by simpa using hlt), getElem?_write b off s h]
  · rw [if_neg (by omega), Array.getElem?_append_right hge, Array.getElem?_append_right (by simpa using hge),
      size_write]

end Bytes

/-! ## Headers -/

namespace Pe

variable {b : Bytes} (x : Bytes)

theorem CoffHeader.read?_append {off : Nat} {h : CoffHeader} (e : CoffHeader.read? b off = some h) :
    CoffHeader.read? (b ++ x) off = some h := by
  simp only [CoffHeader.read?, Option.bind_eq_bind, Option.bind_eq_some_iff] at e ⊢
  obtain ⟨machine, hmachine, count, hcount, size, hsize, e⟩ := e
  exact ⟨machine, Bytes.read?_append x hmachine, count, Bytes.read?_append x hcount, size, Bytes.read?_append x hsize,
    e⟩

theorem OptionalHeader.readDirectory?_append {off : Nat} {d : DataDirectory} (e : readDirectory? b off = some d) :
    readDirectory? (b ++ x) off = some d := by
  simp only [readDirectory?, Option.bind_eq_bind, Option.bind_eq_some_iff] at e ⊢
  obtain ⟨rva, hrva, size, hsize, e⟩ := e
  exact ⟨rva, Bytes.read?_append x hrva, size, Bytes.read?_append x hsize, e⟩

theorem OptionalHeader.read_append {off : Nat} {h : OptionalHeader} (e : OptionalHeader.read b off = .ok h) :
    OptionalHeader.read (b ++ x) off = .ok h := by
  obtain ⟨magic, count, hmagic, hkind, hcount, hcli⟩ := read_eq_ok_iff.1 e
  refine read_eq_ok_iff.2 ⟨magic, count, Bytes.read?_append x hmagic, hkind, Bytes.read?_append x hcount, ?_⟩
  split_ifs at hcli ⊢
  · exact readDirectory?_append x hcli
  · exact hcli

theorem Section.read?_append {off : Nat} {s : Section} (e : Section.read? b off = some s) :
    Section.read? (b ++ x) off = some s := by
  simp only [Section.read?, Option.bind_eq_bind, Option.bind_eq_some_iff] at e ⊢
  obtain ⟨name, hname, virtualSize, hvs, virtualAddress, hva, rawSize, hrs, rawPointer, hrp, e⟩ := e
  exact ⟨name, Bytes.slice?_append x hname, virtualSize, Bytes.read?_append x hvs, virtualAddress,
    Bytes.read?_append x hva, rawSize, Bytes.read?_append x hrs, rawPointer, Bytes.read?_append x hrp, e⟩

namespace Image

theorem readSections_append {off count : Nat} {sections : List Section} (e : readSections b off count = .ok sections) :
    readSections (b ++ x) off count = .ok sections := by
  obtain ⟨hlen, hall⟩ := mapM_range_eq_ok_iff.1 e
  refine mapM_range_eq_ok_iff.2 ⟨hlen, ?_⟩
  intro i s hi
  have hread := hall i s hi
  split at hread
  · cases hread
  · rename_i s' hs'
    cases hread
    simp only [Section.read?_append x hs']

/-- the headers of a file are those of every extension of it -/
theorem parse_append {image : Image} (e : parse b = .ok image) : parse (b ++ x) = .ok image := by
  obtain ⟨lfanew, coff, hdos, hlfanew, hsig, hcoff, hopt, hsec, hmachine⟩ := parse_eq_ok_iff.1 e
  exact parse_eq_ok_iff.2 ⟨lfanew, coff, Bytes.read?_append x hdos, Bytes.read?_append x hlfanew,
    Bytes.read?_append x hsig, CoffHeader.read?_append x hcoff, OptionalHeader.read_append x hopt,
    readSections_append x hsec, hmachine⟩

end Image

end Pe

/-! ## Metadata -/

namespace Metadata

variable {b : Bytes} (x : Bytes)

/-- the root is cut out of the file, so it is the same one -/
theorem locateRoot_append {root : Bytes} {sections : List Pe.Section} {cliRva : Nat}
    (e : locateRoot b sections cliRva = .ok root) : locateRoot (b ++ x) sections cliRva = .ok root := by
  obtain ⟨h0, cli, rva, size, offset, hcli, hrva, hsize, hoff, hroot⟩ := locateRoot_eq_ok_iff.1 e
  exact locateRoot_eq_ok_iff.2 ⟨h0, cli, rva, size, offset, hcli, Bytes.read?_append x hrva, Bytes.read?_append x hsize,
    hoff, Bytes.slice?_append x hroot⟩

theorem parse_append {sections : List Pe.Section} {cliRva : Nat} {md : Metadata}
    (e : parse b sections cliRva = .ok md) : parse (b ++ x) sections cliRva = .ok md := by
  obtain ⟨root, hroot, hmd⟩ := parse_eq_ok_iff.1 e
  exact parse_eq_ok_iff.2 ⟨root, locateRoot_append x hroot, hmd⟩

end Metadata

/-! ## Bodies -/

theorem BodyHeader.readAt_append {b : Bytes} (x : Bytes) {off : Nat} {h : BodyHeader} (e : readAt b off = .ok h) :
    readAt (b ++ x) off = .ok h := by
  refine readAt_of_holds e ?_
  intro s _ hholds i hi
  have hbyte := hholds i hi
  rw [List.getElem?_eq_getElem hi] at hbyte ⊢
  have hlt : off + i < b.size := (Array.getElem?_eq_some_iff.1 hbyte).1
  rw [Array.getElem?_append_left hlt, hbyte]

namespace Module

variable {m : Module} (x : Bytes)

/-- the module with bytes behind its file -/
def extend (m : Module) : Module := { m with bytes := m.bytes ++ x }

theorem locate_append {d : MethodDescriptor} {l : LocatedBody} (h : m.locate d = .ok l) :
    (m.extend x).locate d = .ok l := by
  obtain ⟨hrva, hoff, hlt, hread, hmore, hin⟩ := locate_eq_ok_iff.1 h
  have hsize : (m.extend x).bytes.size = m.bytes.size + x.size := Array.size_append
  exact locate_eq_ok_iff.2 ⟨hrva, hoff, by omega, BodyHeader.readAt_append x hread, hmore, by omega⟩

theorem plan_append {type method : Text} {r : Replacement} (h : m.plan type method = .ok r) :
    (m.extend x).plan type method = .ok r := by
  obtain ⟨t, d, l, ht, hd, hl, hr⟩ := plan_eq_ok_iff.1 h
  exact plan_eq_ok_iff.2 ⟨t, d, l, ht, hd, locate_append x hl, hr⟩

theorem ofBytes_append {b : Bytes} {origin : Text} (h : ofBytes b origin = .ok m) :
    ofBytes (b ++ x) origin = .ok (m.extend x) := by
  obtain ⟨rfl, horigin, himage, hmetadata⟩ := ofBytes_eq_ok_iff.1 h
  exact ofBytes_eq_ok_iff.2 ⟨rfl, horigin, Pe.Image.parse_append x himage, Metadata.parse_append x hmetadata⟩

end Module

theorem Replacement.apply_append {r : Replacement} {b : Bytes} (x : Bytes) (h : r.Fits b.size) :
    r.apply (b ++ x) = r.apply b ++ x := by
  have hin := h.inside
  simp only [PatchSummary.overwritten, Span.stop] at hin
  exact Bytes.write_append x (by rw [h.length_content]; exact hin)

/-! ## Main result -/

/-- **Appended data is inert.** A file that opens does so with any bytes behind it, and has the same headers and the same
metadata. A patch that succeeds on the file succeeds on the longer one with the same summary, and leaves what is
behind the file as it is. -/
theorem overlay_inert (b x : Bytes) (type method : Text) :
    (∀ origin m, Module.ofBytes b origin = .ok m → ∃ m', Module.ofBytes (b ++ x) origin = .ok m' ∧
      m'.bytes = b ++ x ∧ m'.image = m.image ∧ m'.metadata = m.metadata) ∧
    ∀ s out, patchBytes b type method = (.ok s, out) → patchBytes (b ++ x) type method = (.ok s, out ++ x) := by
  refine ⟨fun origin m hm => ?_, fun s out h => ?_⟩
  · have hopen := Module.ofBytes_append x hm
    exact ⟨m.extend x, hopen, Module.bytes_of_ofBytes hopen, rfl, rfl⟩
  · obtain ⟨m, r, hm, hr, rfl, rfl⟩ := patchBytes_eq_ok_iff.1 h
    have hfits : r.Fits b.size := by
      rw [← Module.bytes_of_ofBytes hm]
      exact Module.fits_of_plan hr
    exact patchBytes_eq_ok_iff.2
      ⟨m.extend x, r, Module.ofBytes_append x hm, Module.plan_append x hr, rfl, (Replacement.apply_append x hfits).symm⟩

/-- the small file with a signature behind it -/
theorem overlay_inert_small :
    let signature : Bytes := #[0x4D, 0x5A, 0xFF]
    (∃ m', Module.ofBytes (Small.file ++ signature) Module.inMemory = .ok m' ∧ m'.bytes = Small.file ++ signature ∧
      m'.image = Small.opened.image ∧ m'.metadata = Small.opened.metadata) ∧
    patchBytes (Small.file ++ signature) (Text.ascii "C") (Text.ascii "F") =
      (.ok Small.patchF.1.summary, Small.patchF.1.apply Small.file ++ signature) := by
  intro signature
  obtain ⟨hopen, hpatch⟩ := overlay_inert Small.file signature (Text.ascii "C") (Text.ascii "F")
  exact ⟨hopen Module.inMemory Small.opened Small.ofBytes_file, hpatch _ _ Small.patchBytes_F⟩

end CilPatch
