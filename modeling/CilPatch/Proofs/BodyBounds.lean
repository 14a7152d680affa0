/-
Bodies are found and replaced without a step that goes wrong.

`locate_eq` and `patch_eq` are the main results: no difference is below zero, no span wraps around and no byte is
written outside of its part, so the checked steps give the answers of the unchecked ones.

- `contains_eq`, `owner_eq`, `fileOffset_eq`: the section table;
- `readHeader_eq`: the header, read from the bytes that start with it;
- `copy_eq`, `fill_eq`, `overwrite_eq`: the bytes that are written.
-/
import Mathlib.Tactic
import CilPatch.Body.Checked
import CilPatch.Proofs.Replacement

namespace CilPatch

/-- a number in the bytes from an offset on -/
theorem Bytes.read?_extract {b : Bytes} {off : Nat} (h : off ≤ b.size) (width i : Nat) :
    Bytes.read? (b.extract off b.size) width i = b.read? width (off + i) := by
  have hbytes (width i : Nat) : leAt (b.extract off b.size) width i = b.leAt width (off + i) := by
    induction width generalizing i with
    | zero => rfl
    | succ width ih =>
      have hbyte : (b.extract off b.size).getD i 0 = b.getD (off + i) 0 := by
        simp only [Array.getD_eq_getD_getElem?, Array.getElem?_extract, min_self]
        split_ifs with hi
        · rfl
        · rw [Array.getElem?_eq_none (by omega)]
      rw [leAt, leAt, hbyte, ih (i + 1), Nat.add_assoc]
  have hsize : i + width ≤ (b.extract off b.size).size ↔ off + i + width ≤ b.size := by
    rw [Array.size_extract, min_self]
    omega
  simp only [read?, hsize, hbytes]

/-- two runs of bytes, one written right behind the other -/
theorem Bytes.write_write (b : Bytes) (off : Nat) (s t : List UInt8) :
    (b.write off s).write (off + s.length) t = b.write off (s ++ t) := by
  induction s generalizing b off with
  | nil => rfl
  | cons x s ih =>
    rw [List.cons_append, write, write, ← ih, List.length_cons, Nat.add_assoc, Nat.add_comm 1]

namespace Checked

open Bytes (Span)

/-! ## Steps -/

theorem difference_of_le {a b : Nat} (h : b ≤ a) : difference a b = .ok (a - b) := if_pos h

theorem sum_of_lt {a b : Nat} (h : a + b < Bytes.limit 4) : sum a b = .ok (a + b) := if_pos h

theorem suffix_of_le {b : Bytes} {off : Nat} (h : off ≤ b.size) : suffix b off = .ok (b.extract off b.size) := if_pos h

theorem part_of_le {b : Bytes} {off size : Nat} (h : off + size ≤ b.size) : part b off size = .ok ⟨off, size⟩ :=
  if_pos ⟨by omega, by omega⟩

/-! ## Sections -/

theorem contains_eq (s : Pe.Section) (rva : Nat) : contains s rva = .ok (s.contains rva) := by
  unfold contains Pe.Section.contains
  rcases Nat.lt_or_ge rva s.virtualAddress with hbelow | hfrom
  · rw [if_pos hbelow, decide_eq_false (not_le.2 hbelow)]
    rfl
  · rw [if_neg (not_lt.2 hfrom), difference_of_le hfrom, decide_eq_true hfrom]
    rfl

theorem owner_eq (sections : List Pe.Section) (rva : Nat) : owner sections rva = .ok (Pe.owner? sections rva) := by
  induction sections with
  | nil => rfl
  | cons s sections ih =>
    rw [owner, contains_eq, Pe.owner?, List.find?_cons]
    cases s.contains rva with
    | true => rfl
    | false => exact ih

theorem fileOffset_eq (sections : List Pe.Section) (rva : Nat) :
    fileOffset sections rva = .ok (Pe.fileOffset? sections rva) := by
  rw [fileOffset, owner_eq, Pe.fileOffset?]
  cases h : Pe.owner? sections rva with
  | none => rfl
  | some s =>
    have hcontains := List.find?_some h
    simp only [bind, Except.bind, difference_of_le (Pe.Section.contains_iff.1 hcontains).1]
    rfl

/-! ## Headers -/

/-- a header size of four bits is far below the largest number -/
theorem ofFat_eq {word : Nat} (hword : word < 0x10000) (codeSize : Nat) :
    ofFat word codeSize = .ok (BodyHeader.ofFat word codeSize) := by
  unfold ofFat BodyHeader.ofFat
  have hroom : word / 4096 * 4 ≤ 0xFFFFFFFF := by omega
  have hlarge : 0xFFFFFFFF - word / 4096 * 4 < codeSize ↔ 0x100000000 ≤ word / 4096 * 4 + codeSize := by omega
  simp only [difference_of_le hroom, bind, Except.bind, hlarge]
  split_ifs <;> rfl

theorem readFat_eq {b : Bytes} {off : Nat} (h : off ≤ b.size) : readFat (b.extract off b.size) =
    .ok (if off + BodyHeader.fatSize ≤ b.size then BodyHeader.ofFat (b.leAt 2 off) (b.leAt 4 (off + 4))
      else .error .truncatedFat) := by
  have hsize : (b.extract off b.size).size < BodyHeader.fatSize ↔ ¬ off + BodyHeader.fatSize ≤ b.size := by
    rw [Array.size_extract, min_self]
    omega
  simp only [readFat, Bytes.u16?, Bytes.u32?, Bytes.read?_extract h, Nat.add_zero, hsize]
  by_cases hfits : off + BodyHeader.fatSize ≤ b.size
  · have hparts : off + 2 ≤ b.size ∧ off + 4 + 4 ≤ b.size := by
      simp only [BodyHeader.fatSize] at hfits
      omega
    simp only [Bytes.read?_of_le hparts.1, Bytes.read?_of_le hparts.2, hfits, not_true_eq_false, if_false, if_true]
    exact ofFat_eq (Bytes.leAt_lt b 2 off) _
  · simp only [hfits, not_false_eq_true, if_true, if_false]
    split <;> rfl

theorem readHeader_eq {b : Bytes} {off : Nat} (h : off ≤ b.size) :
    readHeader (b.extract off b.size) = .ok (BodyHeader.readAt b off) := by
  simp only [readHeader, BodyHeader.readAt, Bytes.u8?, Bytes.read?_extract h, Nat.add_zero, readFat_eq h]
  cases b.read? 1 off with
  | none => rfl
  | some lead =>
    simp only
    split_ifs <;> rfl

/-! ## Bodies -/

theorem runsPast_eq {size offset : Nat} (h : offset ≤ size) (header : BodyHeader) :
    runsPast size offset header = .ok (decide (size < offset + header.headerSize + header.codeSize)) := by
  simp only [runsPast, difference_of_le h, bind, Except.bind]
  split_ifs with hlt
  · have hpast : size < offset + header.headerSize + header.codeSize := by omega
    rw [decide_eq_true hpast]
    rfl
  · have hleft : size - offset - header.headerSize < header.codeSize ↔
        size < offset + header.headerSize + header.codeSize := by omega
    simp only [difference_of_le (not_lt.1 hlt), hleft]
    rfl

theorem bodyAt_eq {m : Module} {offset : Nat} (h : offset ≤ m.bytes.size) (d : MethodDescriptor) :
    bodyAt m d offset = .ok (
      match BodyHeader.readAt m.bytes offset with
      | .error e => .error (.unsupportedBody d e.message false)
      | .ok header =>
        if header.moreSections then .error (.unsupportedBody d LocateError.extraSections true)
        else if m.bytes.size < offset + header.headerSize + header.codeSize then
          .error (.unsupportedBody d (LocateError.pastEnd offset header) false)
        else .ok ⟨offset, header⟩) := by
  simp only [bodyAt, suffix_of_le h, readHeader_eq h, bind, Except.bind]
  cases BodyHeader.readAt m.bytes offset with
  | error e => rfl
  | ok header =>
    simp only [runsPast_eq h, decide_eq_true_eq]
    split_ifs <;> rfl

/-- no step of the search for a body goes wrong -/
theorem locate_eq (m : Module) (d : MethodDescriptor) : locate m d = .ok (m.locate d) := by
  unfold locate Module.locate Module.bodyOffset? Pe.Image.fileOffset?
  split_ifs with h0
  · rfl
  · simp only [fileOffset_eq, bind, Except.bind]
    cases Pe.fileOffset? m.image.sections d.rva with
    | none => rfl
    | some offset =>
      rcases Nat.lt_or_ge offset m.bytes.size with hin | hout
      · simp only [Option.filter_some, hin, decide_true, if_true, if_neg (not_le.2 hin)]
        exact bodyAt_eq hin.le d
      · simp only [Option.filter_some, not_lt.2 hout, decide_false, if_pos hout, Bool.false_eq_true, if_false]
        rfl

/-! ## Patching -/

theorem store_of_mem {target : Span} {b : Bytes} {i : Nat} (h : target.Mem i) (hi : i < b.size) (x : UInt8) :
    store target b i x = .ok (b.setIfInBounds i x) := if_pos ⟨h, hi⟩

/-- bytes that stay inside the part are written to the buffer -/
theorem copy_eq {target : Span} {s : List UInt8} {i : Nat} {b : Bytes} (hstart : target.start ≤ i)
    (hstop : i + s.length ≤ target.stop) (hsize : target.stop ≤ b.size) : copy target s i b = .ok (b.write i s) := by
  induction s generalizing i b with
  | nil => rfl
  | cons x s ih =>
    rw [List.length_cons] at hstop
    rw [copy, store_of_mem ⟨hstart, by omega⟩ (by omega)]
    exact ih (by omega) (by omega) (by simpa using hsize)

theorem fill_eq {target : Span} {i : Nat} {b : Bytes} (hstart : target.start ≤ i) (hstop : i ≤ target.stop)
    (hsize : target.stop ≤ b.size) : fill target i b = .ok (b.write i (List.replicate (target.stop - i) 0)) := by
  rw [fill, difference_of_le hstop]
  refine copy_eq hstart ?_ hsize
  rw [List.length_replicate]
  omega

theorem overwrite_eq {out : Bytes} {offset span : Nat} {body : List UInt8} (hin : offset + span ≤ out.size)
    (hbody : body.length ≤ span) :
    overwrite out offset span body = .ok (out.write offset (body ++ List.replicate (span - body.length) 0)) := by
  let target : Span := ⟨offset, span⟩
  have hbodyStop : offset + body.length ≤ target.stop := Nat.add_le_add_left hbody offset
  have hcopy : copy target body offset out = .ok (out.write offset body) := copy_eq (le_refl offset) hbodyStop hin
  have hleft : target.stop - (offset + body.length) = span - body.length := Nat.add_sub_add_left ..
  have hfill : fill target (offset + body.length) (out.write offset body)
      = .ok ((out.write offset body).write (offset + body.length) (List.replicate (span - body.length) 0)) := by
    rw [← hleft]
    exact fill_eq (Nat.le_add_right _ _) hbodyStop ((Bytes.size_write out offset body).symm ▸ hin)
  rw [← Bytes.write_write, overwrite, part_of_le hin]
  change (copy target body offset out >>= fill target (offset + body.length)) = _
  rw [hcopy]
  exact hfill

/-- a body that was located is replaced without a step that goes wrong -/
theorem replace_eq {m : Module} {d : MethodDescriptor} {l : LocatedBody} {out : Bytes} (hl : m.locate d = .ok l)
    (hsize : out.size = m.bytes.size) : replace d l out = .ok (
      match Module.replace d l with
      | .error e => (.error e, out)
      | .ok r => (.ok r.summary, r.apply out)) := by
  obtain ⟨-, -, -, hread, -, hin⟩ := Module.locate_eq_ok_iff.1 hl
  obtain ⟨-, hspan⟩ := BodyHeader.span_of_readAt hread
  have hsum : l.header.headerSize + l.header.codeSize < Bytes.limit 4 := by
    rw [← hspan]
    exact Nat.mod_lt _ (by decide)
  unfold replace Module.replace
  cases d.returnCategory.defaultBody with
  | error e => rfl
  | ok body =>
    simp only [sum_of_lt hsum, ← hspan, bind, Except.bind]
    split_ifs with hlt
    · rfl
    · rw [overwrite_eq (by rw [hsize, hspan]; omega) (not_lt.1 hlt)]
      rfl

/-- no step of a patch goes wrong -/
theorem patch_eq (m : Module) (type method : Text) (out : Bytes) :
    patch m type method out = .ok (m.patch type method out) := by
  unfold patch Module.patch Module.plan
  split_ifs with hsize
  · rfl
  · cases m.findType? type with
    | none => rfl
    | some t =>
      simp only
      cases m.findMethod? t method with
      | none => rfl
      | some d =>
        simp only [locate_eq, bind, Except.bind]
        cases hl : m.locate d with
        | error e => rfl
        | ok l => exact replace_eq hl (not_not.1 hsize)

end Checked

end CilPatch
