/-
Every answer to the question where the body of a method is.

`Outcome` has one case for each answer, with what must be the case for it. `locate_classified` is the main result: the
answer is the one whose case holds, a body that is found lies inside the file with all of its span, and finding and
replacing it takes no step that goes wrong.

- `outcome_locate`, `Outcome.locate_eq`: each answer has its case, and each case its answer;
- `span_of_locate`: the span of a body that is found.
-/
import Mathlib.Tactic
import CilPatch.Proofs.BodyBounds
import CilPatch.Proofs.BodyHeaders
import CilPatch.Proofs.Mapping

namespace CilPatch.Module

open LocateError (extraSections pastEnd)

variable {m : Module} {d : MethodDescriptor}

/-- the address is loaded from this offset of the file, which is not behind its end -/
def MapsInto (m : Module) (rva off : Nat) : Prop :=
  rva ≠ 0 ∧ Pe.MapsTo m.image.sections rva off ∧ off < m.bytes.size

/-- the answers, and when each of them is given -/
inductive Outcome (m : Module) (d : MethodDescriptor) : Except LocateError LocatedBody → Prop where
  | noBody (hrva : d.rva = 0) : Outcome m d (.error (.noBody d))
  /-- no section covers the address, or the one that does loads it from behind the end of the file -/
  | unmapped (hrva : d.rva ≠ 0) (h : (∀ s ∈ m.image.sections, ¬ s.Covers d.rva) ∨
      ∃ off, Pe.MapsTo m.image.sections d.rva off ∧ m.bytes.size ≤ off) : Outcome m d (.error (.unmapped d))
  | unreadable (off : Nat) (e : HeaderError) (hoff : m.MapsInto d.rva off)
      (h : BodyHeader.readAt m.bytes off = .error e) : Outcome m d (.error (.unsupportedBody d e.message false))
  /-- wherever the body ends -/
  | moreSections (off : Nat) (h : BodyHeader) (hoff : m.MapsInto d.rva off) (hh : h.StandsAt m.bytes off)
      (hmore : h.moreSections = true) : Outcome m d (.error (.unsupportedBody d extraSections true))
  | pastEnd (off : Nat) (h : BodyHeader) (hoff : m.MapsInto d.rva off) (hh : h.StandsAt m.bytes off)
      (hmore : h.moreSections = false) (hsize : m.bytes.size < off + h.headerSize + h.codeSize) :
      Outcome m d (.error (.unsupportedBody d (pastEnd off h) false))
  | located (l : LocatedBody) (hoff : m.MapsInto d.rva l.fileOffset) (hh : l.header.StandsAt m.bytes l.fileOffset)
      (hmore : l.header.moreSections = false)
      (hsize : l.fileOffset + l.header.headerSize + l.header.codeSize ≤ m.bytes.size) : Outcome m d (.ok l)

theorem bodyOffset?_of_mapsInto {off : Nat} (h : m.MapsInto d.rva off) : m.bodyOffset? d.rva = some off := by
  obtain ⟨-, hmaps, hin⟩ := h
  exact Option.filter_eq_some_iff.2 ⟨Pe.fileOffset?_eq_some_iff.2 hmaps, by simpa using hin⟩

theorem mapsInto_of_bodyOffset? {off : Nat} (hrva : d.rva ≠ 0) (h : m.bodyOffset? d.rva = some off) :
    m.MapsInto d.rva off := by
  obtain ⟨hmaps, hin⟩ := Option.filter_eq_some_iff.1 h
  exact ⟨hrva, Pe.fileOffset?_eq_some_iff.1 hmaps, by simpa using hin⟩

theorem bodyOffset?_eq_none_iff {rva : Nat} : m.bodyOffset? rva = none ↔
    (∀ s ∈ m.image.sections, ¬ s.Covers rva) ∨ ∃ off, Pe.MapsTo m.image.sections rva off ∧ m.bytes.size ≤ off := by
  rw [bodyOffset?, Pe.Image.fileOffset?, ← Pe.fileOffset?_eq_none_iff]
  simp only [← Pe.fileOffset?_eq_some_iff]
  cases Pe.fileOffset? m.image.sections rva with
  | none => simp
  | some off => simp

/-- each answer has its case -/
theorem outcome_locate (m : Module) (d : MethodDescriptor) : Outcome m d (m.locate d) := by
  unfold locate
  split_ifs with hrva
  · exact .noBody hrva
  · split
    · rename_i hnone
      exact .unmapped hrva (bodyOffset?_eq_none_iff.1 hnone)
    · rename_i off hsome
      have hoff := mapsInto_of_bodyOffset? hrva hsome
      split
      · rename_i e he
        exact .unreadable off e hoff he
      · rename_i h hread
        have hh := BodyHeader.readAt_eq_ok_iff.1 hread
        split_ifs with hmore hsize
        · exact .moreSections off h hoff hh hmore
        · exact .pastEnd off h hoff hh (Bool.eq_false_iff.2 hmore) hsize
        · exact .located ⟨off, h⟩ hoff hh (Bool.eq_false_iff.2 hmore) (not_lt.1 hsize)

/-- each case has its answer -/
theorem Outcome.locate_eq {a : Except LocateError LocatedBody} (h : Outcome m d a) : m.locate d = a := by
  unfold locate
  cases h with
  | noBody hrva => rw [if_pos hrva]
  | unmapped hrva h => rw [if_neg hrva, bodyOffset?_eq_none_iff.2 h]
  | unreadable off e hoff h => simp only [if_neg hoff.1, bodyOffset?_of_mapsInto hoff, h]
  | moreSections off h hoff hh hmore =>
    simp only [if_neg hoff.1, bodyOffset?_of_mapsInto hoff, BodyHeader.readAt_eq_ok_iff.2 hh, hmore, if_true]
  | pastEnd off h hoff hh hmore hsize =>
    simp only [if_neg hoff.1, bodyOffset?_of_mapsInto hoff, BodyHeader.readAt_eq_ok_iff.2 hh, hmore, if_pos hsize,
      Bool.false_eq_true, if_false]
  | located l hoff hh hmore hsize =>
    simp only [if_neg hoff.1, bodyOffset?_of_mapsInto hoff, BodyHeader.readAt_eq_ok_iff.2 hh, hmore,
      if_neg (not_lt.2 hsize), Bool.false_eq_true, if_false]

/-- the span of a body that is found does not wrap around, and it lies inside the file -/
theorem span_of_locate {l : LocatedBody} (h : m.locate d = .ok l) :
    l.header.span = l.header.headerSize + l.header.codeSize ∧ 0 < l.header.span ∧
      l.fileOffset + l.header.span ≤ m.bytes.size := by
  obtain ⟨-, -, -, hread, -, hin⟩ := locate_eq_ok_iff.1 h
  obtain ⟨hpos, hspan⟩ := BodyHeader.span_of_readAt hread
  exact ⟨hspan, by omega, by omega⟩

/-! ## Main result -/

/-- **Every descriptor has one outcome, and it is the answer.** The headers that are read are those that stand in the
file. The span of a body that is found is not empty and lies inside the file. Neither finding it nor replacing it has a
difference below zero, a sum that wraps around or a byte out of range, whatever buffer is patched. -/
theorem locate_classified (m : Module) (d : MethodDescriptor) :
    (∀ a, m.locate d = a ↔ Outcome m d a) ∧
      (∀ off h, BodyHeader.readAt m.bytes off = .ok h ↔ h.StandsAt m.bytes off) ∧
      (∀ l, m.locate d = .ok l → l.header.span = l.header.headerSize + l.header.codeSize ∧ 0 < l.header.span ∧
        l.fileOffset + l.header.span ≤ m.bytes.size) ∧
      Checked.locate m d = .ok (m.locate d) ∧
      ∀ type method out, Checked.patch m type method out = .ok (m.patch type method out) := by
  refine ⟨?_, ?_, ?_, Checked.locate_eq m d, Checked.patch_eq m⟩
  · intro a
    constructor
    · rintro rfl
      exact outcome_locate m d
    · exact Outcome.locate_eq
  · intro off h
    exact BodyHeader.readAt_eq_ok_iff
  · intro l hl
    exact span_of_locate hl

/-- the tiny body of the small module is located, and an address behind its only section is not mapped -/
theorem locate_classified_small :
    let inside := MethodDescriptor.ofRow (Text.ascii "C") ⟨1, 0x1010, 0, 0x16, Text.ascii "F", none⟩
    let outside := MethodDescriptor.ofRow (Text.ascii "C") ⟨1, 0x1400, 0, 0x16, Text.ascii "F", none⟩
    Small.opened.locate inside = .ok ⟨360, ⟨.tiny, 1, 4, 0, false⟩⟩ ∧
      Small.opened.locate outside = .error (.unmapped outside) := by
  intro inside outside
  have hsize : Small.opened.bytes.size = 570 := by decide +kernel
  refine ⟨((locate_classified Small.opened inside).1 _).2 (.located _ ⟨by decide, ?_, ?_⟩ ?_ rfl ?_),
    ((locate_classified Small.opened outside).1 _).2 (.unmapped (by decide) (.inl ?_))⟩
  · exact ⟨[], ⟨Text.ascii ".text", 0x400, 0x1000, 0x400, 344⟩, [], rfl, ⟨by decide, by decide⟩, by simp, by decide⟩
  · rw [hsize]
    decide
  · exact .tiny 4 (by decide) (by decide +kernel)
  · rw [hsize]
    decide
  · intro s hs
    obtain rfl : s = ⟨Text.ascii ".text", 0x400, 0x1000, 0x400, 344⟩ := List.mem_singleton.1 hs
    rintro ⟨-, hlt⟩
    exact absurd hlt (by decide)

end CilPatch.Module
