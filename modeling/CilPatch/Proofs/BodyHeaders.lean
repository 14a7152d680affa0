/-
Body headers are read from the bytes they are written as, and from no others.

`BodyHeader.readAt_eq_ok_iff` is the main result. Fat headers are taken apart into their fields by `FatHeader.ofBytes`,
`readAt_of_holds_fat` and `ofFat_of_fits` say what becomes of the fields. What follows for a header that was read:

- `span_of_readAt`: its span does not wrap around;
- `readAt_of_holds`, `readAt_of_agree`: it is read from every file that has its bytes at the same place.
-/
import Mathlib.Tactic
import CilPatch.Body.FatHeader
import CilPatch.Proofs.Agreement
import CilPatch.Proofs.Records

namespace CilPatch

open Bytes (AgreeOn Holds Span)

variable {b : Bytes} {off : Nat}

/-- the first byte of a longer number -/
theorem Bytes.leAt_one (b : Bytes) (width off : Nat) : b.leAt 1 off = b.leAt (width + 1) off % 256 := by
  have hlt := (b.getD off 0).toNat_lt
  simp only [leAt]
  omega

namespace FatHeader

/-- the fields of the 12 bytes at an offset -/
def ofBytes (b : Bytes) (off : Nat) : FatHeader where
  flags := b.leAt 2 off % 4096
  units := b.leAt 2 off / 4096
  maxStack := b.leAt 2 (off + 2)
  codeSize := b.leAt 4 (off + 4)
  localsToken := b.leAt 4 (off + 8)

theorem ofBytes_fits (hformat : b.leAt 1 off % 4 = 3) : (ofBytes b off).Fits where
  flags := Nat.mod_lt _ (by decide)
  format := by
    have hbyte : b.leAt 1 off = b.leAt 2 off % 256 := b.leAt_one 1 off
    simp only [ofBytes]
    omega
  units := by
    have hword : b.leAt 2 off < 0x10000 := Bytes.leAt_lt b 2 off
    simp only [ofBytes]
    omega
  maxStack := Bytes.leAt_lt b 2 (off + 2)
  codeSize := Bytes.leAt_lt b 4 (off + 4)
  localsToken := Bytes.leAt_lt b 4 (off + 8)

theorem holds_ofBytes (h : off + BodyHeader.fatSize ≤ b.size) : b.Holds off (ofBytes b off).bytes := by
  simp only [BodyHeader.fatSize] at h
  have hword : (ofBytes b off).flags + 0x1000 * (ofBytes b off).units = b.leAt 2 off := Nat.mod_add_div _ _
  unfold bytes
  rw [hword, Bytes.holds_append, Bytes.holds_append, Bytes.holds_append]
  simp only [List.length_append, Bytes.length_toLE]
  refine ⟨⟨⟨?_, ?_⟩, ?_⟩, ?_⟩
  · exact Bytes.holds_leAt b 2 off (by omega)
  · exact Bytes.holds_leAt b 2 (off + 2) (by omega)
  · exact Bytes.holds_leAt b 4 (off + 4) (by omega)
  · exact Bytes.holds_leAt b 4 (off + 8) (by omega)

variable {f : FatHeader}

/-- the word and the code size that a buffer holds of a fat header -/
theorem leAt_of_holds (hf : f.Fits) (h : b.Holds off f.bytes) :
    off + BodyHeader.fatSize ≤ b.size ∧ b.leAt 2 off = f.flags + 0x1000 * f.units ∧
      b.leAt 4 (off + 4) = f.codeSize := by
  have hne : f.bytes ≠ [] := List.ne_nil_of_length_eq_add_one f.length_bytes
  have hsize : off + BodyHeader.fatSize ≤ b.size := by
    have := h.size_le hne
    rwa [f.length_bytes] at this
  have hflags := hf.flags
  have hunits := hf.units
  have hword : b.u16? off = some (f.flags + 0x1000 * f.units) :=
    Bytes.read?_of_holds_lt (by omega) (by simp only [Bytes.limit]; omega) h.left.left.left
  have hcode : b.u32? (off + 4) = some f.codeSize := by
    have hplace := h.left.right
    rw [List.length_append, Bytes.length_toLE, Bytes.length_toLE] at hplace
    exact Bytes.read?_of_holds_lt (by omega) hf.codeSize hplace
  exact ⟨hsize, (Bytes.eq_leAt_of_read? hword).2.symm, (Bytes.eq_leAt_of_read? hcode).2.symm⟩

end FatHeader

namespace BodyHeader

/-- what becomes of a fat header: it must be long enough, and its body must have a 32-bit size -/
theorem ofFat_of_fits {f : FatHeader} (hf : f.Fits) : ofFat (f.flags + 0x1000 * f.units) f.codeSize =
    if f.units < 3 then .error (.headerTooSmall (4 * f.units))
    else if Bytes.limit 4 ≤ 4 * f.units + f.codeSize then .error (.codeTooLarge f.codeSize) else .ok f.header := by
  have hflags := hf.flags
  have hunits : (f.flags + 0x1000 * f.units) / 4096 = f.units := by omega
  have hmod : (f.flags + 0x1000 * f.units) % 4096 = f.flags := by omega
  have hsmall : 4 * f.units < 12 ↔ f.units < 3 := by omega
  unfold ofFat
  simp only [hunits, hmod, fatSize, Bytes.limit, Nat.mul_comm f.units 4, hsmall]
  rfl

/-- a fat header is accepted when it is long enough and its body has a 32-bit size -/
theorem ofFat_eq_ok_iff {f : FatHeader} (hf : f.Fits) {h : BodyHeader} :
    ofFat (f.flags + 0x1000 * f.units) f.codeSize = .ok h ↔
      3 ≤ f.units ∧ 4 * f.units + f.codeSize < Bytes.limit 4 ∧ h = f.header := by
  rw [ofFat_of_fits hf]
  split_ifs with hsmall hlarge
  · refine ⟨fun e => ?_, fun e => absurd hsmall (Nat.not_lt.2 e.1)⟩
    cases e
  · refine ⟨fun e => ?_, fun e => absurd hlarge (Nat.not_le.2 e.2.1)⟩
    cases e
  · refine ⟨fun e => ?_, fun e => ?_⟩
    · cases e
      exact ⟨Nat.not_lt.1 hsmall, Nat.not_le.1 hlarge, rfl⟩
    · rw [e.2.2]

/-- where a fat header stands, its word and its code size decide -/
theorem readAt_of_holds_fat {f : FatHeader} (hf : f.Fits) (h : b.Holds off f.bytes) :
    readAt b off = ofFat (f.flags + 0x1000 * f.units) f.codeSize := by
  obtain ⟨hsize, hword, hcode⟩ := FatHeader.leAt_of_holds hf h
  have hbyte : b.leAt 1 off = b.leAt 2 off % 256 := b.leAt_one 1 off
  have hformat := hf.format
  have hlead : b.u8? off = some (b.leAt 1 off) := by
    simp only [fatSize] at hsize
    exact Bytes.read?_of_le (by omega)
  simp only [readAt, hlead]
  rw [if_neg (by omega), if_neg (by omega), if_pos hsize, hword, hcode]

/-- **A header is read exactly where one stands.** -/
theorem readAt_eq_ok_iff {h : BodyHeader} : readAt b off = .ok h ↔ h.StandsAt b off := by
  constructor
  · intro hread
    unfold readAt at hread
    split at hread
    · cases hread
    · rename_i lead hlead
      obtain ⟨hin, rfl⟩ := Bytes.eq_leAt_of_read? hlead
      have hlt : b.leAt 1 off < 256 := Bytes.leAt_lt b 1 off
      split_ifs at hread with htiny hfat hsize
      · cases hread
        have hcode : 4 * (b.leAt 1 off / 4) + 2 = b.leAt 1 off := by omega
        refine .tiny (b.leAt 1 off / 4) (by omega) ?_
        rw [hcode]
        exact Bytes.holds_leAt b 1 off hin
      · have hfits := FatHeader.ofBytes_fits (not_not.1 hfat)
        have hword : (FatHeader.ofBytes b off).flags + 0x1000 * (FatHeader.ofBytes b off).units = b.leAt 2 off :=
          Nat.mod_add_div _ _
        rw [← hword] at hread
        obtain ⟨hunits, hspan, rfl⟩ := (ofFat_eq_ok_iff hfits).1 hread
        exact .fat _ hfits hunits hspan (FatHeader.holds_ofBytes hsize)
  · intro hstands
    cases hstands with
    | tiny codeSize hcode h =>
      have hlead : b.u8? off = some (4 * codeSize + 2) :=
        Bytes.read?_of_holds_lt (by omega) (by simp only [Bytes.limit]; omega) h
      simp only [readAt, hlead]
      rw [if_pos (by omega), ofTiny]
      congr
      omega
    | fat f hfits hunits hspan h =>
      rw [readAt_of_holds_fat hfits h]
      exact (ofFat_eq_ok_iff hfits).2 ⟨hunits, hspan, rfl⟩

/-! ### Headers that were read -/

/-- a header that is read takes at least its first byte, and its span does not wrap -/
theorem span_of_readAt {h : BodyHeader} (hread : readAt b off = .ok h) :
    0 < h.headerSize ∧ h.span = h.headerSize + h.codeSize := by
  cases readAt_eq_ok_iff.1 hread with
  | tiny codeSize hcode hholds =>
    simp only [span]
    omega
  | fat f hfits hunits hspan hholds =>
    simp only [Bytes.limit] at hspan
    simp only [FatHeader.header, span]
    omega

/-- a header is read from every file that holds the same as its first bytes, which are no more than its size -/
theorem readAt_of_holds {a : Bytes} {h : BodyHeader} (hread : readAt a off = .ok h)
    (hkept : ∀ s : List UInt8, s.length ≤ h.headerSize → a.Holds off s → b.Holds off s) : readAt b off = .ok h := by
  rw [readAt_eq_ok_iff] at hread ⊢
  cases hread with
  | tiny codeSize hcode hholds => exact .tiny codeSize hcode (hkept _ (Bytes.length_toLE 1 _).le hholds)
  | fat f hfits hunits hspan hholds =>
    refine .fat f hfits hunits hspan (hkept _ ?_ hholds)
    rw [f.length_bytes]
    exact Nat.mul_le_mul_left 4 hunits

/-- a header is inside its own span, so it is read again from every file that has the same bytes there -/
theorem readAt_of_agree {a : Bytes} {h : BodyHeader} (hread : readAt a off = .ok h)
    (hag : AgreeOn a b ⟨off, h.span⟩) : readAt b off = .ok h := by
  obtain ⟨-, hspan⟩ := span_of_readAt hread
  refine readAt_of_holds hread ?_
  intro s hs hholds i hi
  have hmem : (⟨off, h.span⟩ : Span).Mem (off + i) := ⟨Nat.le_add_right _ _, by simp only [Span.stop]; omega⟩
  rw [← hag (off + i) hmem]
  exact hholds i hi

end BodyHeader

end CilPatch
