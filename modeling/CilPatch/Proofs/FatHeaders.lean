/-
Fat headers are decoded exactly.

The first word of a fat header has the format, the flags and the size of the header in it, across the border of its two
bytes, and how large the code may be depends on that size.

- `FatHeader.ofBytes_of_holds`: the twelve bytes determine the fields they were written for;
- `readAt_eq_error_iff`: bytes are refused exactly for the reasons of `BodyHeader.Refused`;
- `readAt_fat`: the main result, for every header and every file.
-/
import CilPatch.Proofs.BodyHeaders

namespace CilPatch

open Bytes (Holds)

variable {b : Bytes} {off : Nat}

/-! ## First bytes -/

namespace Bytes

/-- the length of what stands in a file from an offset on -/
theorem size_of_drop {x : UInt8} {rest : List UInt8} (h : b.toList.drop off = x :: rest) :
    b.size = off + (rest.length + 1) := by
  have hlength := congrArg List.length h
  rw [List.length_drop, Array.length_toList, List.length_cons] at hlength
  omega

theorem u8?_of_drop {x : UInt8} {rest : List UInt8} (h : b.toList.drop off = x :: rest) :
    b.u8? off = some x.toNat :=
  u8?_of_holds (holds_iff_drop.2 ⟨rest, h.symm⟩)

/-- the first word has the second byte in its upper half -/
theorem leAt_of_drop {x y : UInt8} {rest : List UInt8} (h : b.toList.drop off = x :: y :: rest) :
    b.leAt 2 off = x.toNat + 256 * y.toNat :=
  leAt_of_holds (s := [x, y]) (holds_iff_drop.2 ⟨rest, h.symm⟩) (List.cons_ne_nil _ _)

end Bytes

/-! ## Fields -/

namespace FatHeader

variable {f g : FatHeader}

/-- the fields at an offset are those of the header that stands there -/
theorem ofBytes_of_holds (hf : f.Fits) (h : b.Holds off f.bytes) : ofBytes b off = f := by
  obtain ⟨-, hword, hcode⟩ := leAt_of_holds hf h
  have hflags := hf.flags
  have hmaxStack : b.leAt 2 (off + 2) = f.maxStack := by
    have hplace := h.left.left.right
    rw [Bytes.length_toLE] at hplace
    exact (Bytes.eq_leAt_of_read? (Bytes.read?_of_holds_lt (by omega) hf.maxStack hplace)).2.symm
  have htoken : b.leAt 4 (off + 8) = f.localsToken := by
    have hplace := h.right
    simp only [List.length_append, Bytes.length_toLE] at hplace
    exact (Bytes.eq_leAt_of_read? (Bytes.read?_of_holds_lt (by omega) hf.localsToken hplace)).2.symm
  have hmod : (f.flags + 0x1000 * f.units) % 4096 = f.flags := by omega
  have hdiv : (f.flags + 0x1000 * f.units) / 4096 = f.units := by omega
  rw [ofBytes, hword, hcode, hmaxStack, htoken, hmod, hdiv]

/-- no two headers are written the same -/
theorem eq_of_holds (hf : f.Fits) (hg : g.Fits) (h : b.Holds off f.bytes) (h' : b.Holds off g.bytes) : f = g :=
  (ofBytes_of_holds hf h).symm.trans (ofBytes_of_holds hg h')

end FatHeader

namespace BodyHeader

variable {e : HeaderError}

/-! ## Bytes that are refused -/

/-- bytes that are refused give the reason as the error -/
theorem readAt_of_refused {bytes : List UInt8} (h : Refused bytes e) (hbytes : b.toList.drop off = bytes) :
    readAt b off = .error e := by
  -- the bytes that every reason speaks of are those that the reader looks at first
  cases h with
  | noBytes =>
    have hend : b.size ≤ off := by simpa using hbytes
    have hnone : b.u8? off = none := if_neg (by omega)
    simp only [readAt, hnone]
  | unknownFormat hformat =>
    simp only [readAt, Bytes.u8?_of_drop hbytes]
    rw [if_neg (by omega), if_pos (by omega)]
  | truncatedFat hformat hlength =>
    have hsize := Bytes.size_of_drop hbytes
    simp only [readAt, Bytes.u8?_of_drop hbytes]
    rw [if_neg (by omega), if_neg (by omega), if_neg (by rw [fatSize]; omega)]
  | @headerTooSmall x y rest hformat hlength hunits =>
    have hsize := Bytes.size_of_drop hbytes
    have hx := x.toNat_lt
    have hword := Bytes.leAt_of_drop hbytes
    have hsmall : (x.toNat + 256 * y.toNat) / 4096 = y.toNat / 16 := by omega
    simp only [List.length_cons] at hsize
    simp only [readAt, Bytes.u8?_of_drop hbytes]
    rw [if_neg (by omega), if_neg (by omega), if_pos (by rw [fatSize]; omega), hword]
    simp only [ofFat, hsmall]
    rw [if_pos (by rw [fatSize]; omega), Nat.mul_comm]
  | codeTooLarge hfits hunits hspan =>
    have hholds := Bytes.holds_iff_drop.2 ⟨_, hbytes.symm⟩
    rw [readAt_of_holds_fat hfits hholds, ofFat_of_fits hfits, if_neg (Nat.not_lt.2 hunits), if_pos hspan]

/-- a fat header that is refused has too few units or too much code -/
theorem refused_of_ofFat {x : UInt8} {rest : List UInt8} (hbytes : b.toList.drop off = x :: rest)
    (hformat : x.toNat % 4 = 3) (hsize : off + fatSize ≤ b.size)
    (h : ofFat (b.leAt 2 off) (b.leAt 4 (off + 4)) = .error e) : Refused (x :: rest) e := by
  have hlength := Bytes.size_of_drop hbytes
  have hlead : x.toNat = b.leAt 1 off := (Bytes.eq_leAt_of_read? (Bytes.u8?_of_drop hbytes)).2
  have hfits : (FatHeader.ofBytes b off).Fits := FatHeader.ofBytes_fits (hlead ▸ hformat)
  have hword : (FatHeader.ofBytes b off).flags + 0x1000 * (FatHeader.ofBytes b off).units = b.leAt 2 off :=
    Nat.mod_add_div _ _
  rw [← hword] at h
  replace h := (ofFat_of_fits hfits).symm.trans h
  rw [fatSize] at hsize
  split_ifs at h with hunits hspan
  · cases h
    cases rest with
    | nil =>
      simp only [List.length_nil] at hlength
      omega
    | cons y rest =>
      have hx := x.toNat_lt
      have heq : (FatHeader.ofBytes b off).units = y.toNat / 16 := by
        simp only [FatHeader.ofBytes, Bytes.leAt_of_drop hbytes]
        omega
      rw [heq] at hunits ⊢
      refine .headerTooSmall hformat ?_ hunits
      simp only [List.length_cons] at hlength
      omega
  · cases h
    have hholds : b.Holds off (FatHeader.ofBytes b off).bytes := FatHeader.holds_ofBytes hsize
    obtain ⟨behind, hbehind⟩ := Bytes.holds_iff_drop.1 hholds
    rw [hbytes] at hbehind
    rw [← hbehind]
    exact .codeTooLarge hfits (Nat.not_lt.1 hunits) hspan

theorem refused_of_readAt (h : readAt b off = .error e) : Refused (b.toList.drop off) e := by
  cases hbytes : b.toList.drop off with
  | nil =>
    have hend : b.size ≤ off := by simpa using hbytes
    have hnone : b.u8? off = none := if_neg (by omega)
    simp only [readAt, hnone] at h
    cases h
    exact .noBytes
  | cons x rest =>
    simp only [readAt, Bytes.u8?_of_drop hbytes] at h
    split_ifs at h with htiny hfat hsize
    · cases h
      exact .unknownFormat (by omega)
    · exact refused_of_ofFat hbytes (not_not.1 hfat) hsize h
    · cases h
      have hlength := Bytes.size_of_drop hbytes
      refine .truncatedFat (not_not.1 hfat) ?_
      rw [fatSize] at hsize
      omega

theorem readAt_eq_error_iff : readAt b off = .error e ↔ Refused (b.toList.drop off) e :=
  ⟨refused_of_readAt, fun h => readAt_of_refused h rfl⟩

/-! ## Main result -/

/-- **Fat headers are decoded exactly.** Where the twelve bytes of a fat header of at least three units stand, whatever
follows them, the header is read with the size, the code size and the flags that were written, if its body has a 32-bit
size, and refused otherwise. A header that is read as a fat one comes from the first twelve bytes, which are there and
are those of exactly one fat header, and its span does not wrap around. All that is refused, from no bytes at all to
code that is too large, is refused for its own reason. -/
theorem readAt_fat (b : Bytes) (off : Nat) :
    (∀ f : FatHeader, f.Fits → 3 ≤ f.units → b.Holds off f.bytes →
      readAt b off = if 4 * f.units + f.codeSize < Bytes.limit 4
        then .ok ⟨.fat, 4 * f.units, f.codeSize, f.flags, f.flags.testBit 3⟩ else .error (.codeTooLarge f.codeSize)) ∧
    (∀ h, readAt b off = .ok h → h.encoding = .fat → off + 12 ≤ b.size ∧
      (∃ f : FatHeader, f.Fits ∧ 3 ≤ f.units ∧ (b.toList.drop off).take 12 = f.bytes ∧ h = f.header ∧
        ∀ g : FatHeader, g.Fits → (b.toList.drop off).take 12 = g.bytes → g = f) ∧
      h.span = h.headerSize + h.codeSize) ∧
    (∀ e, readAt b off = .error e ↔ Refused (b.toList.drop off) e) := by
  refine ⟨?decoded, ?encoded, fun e => readAt_eq_error_iff⟩
  case decoded =>
    intro f hfits hunits hholds
    rw [readAt_of_holds_fat hfits hholds, ofFat_of_fits hfits, if_neg (Nat.not_lt.2 hunits)]
    rcases Nat.lt_or_ge (4 * f.units + f.codeSize) (Bytes.limit 4) with hlt | hge
    · rw [if_neg (Nat.not_le.2 hlt), if_pos hlt]
      rfl
    · rw [if_pos hge, if_neg (Nat.not_lt.2 hge)]
  case encoded =>
    intro h hread hfat
    have hspan := (span_of_readAt hread).2
    cases readAt_eq_ok_iff.1 hread with
    | tiny codeSize hcode hholds => cases hfat
    | fat f hfits hunits hsmall hholds =>
      have htake (g : FatHeader) : (b.toList.drop off).take 12 = g.bytes ↔ b.Holds off g.bytes := by
        rw [Bytes.holds_iff_drop, List.prefix_iff_eq_take, g.length_bytes, fatSize, eq_comm]
      refine ⟨(FatHeader.leAt_of_holds hfits hholds).1, ⟨f, hfits, hunits, (htake f).2 hholds, rfl, ?_⟩, hspan⟩
      intro g hg hbytes
      exact FatHeader.eq_of_holds hg hfits ((htake g).1 hbytes) hholds

end BodyHeader

/-! ### The largest fat body -/

namespace Small

/-- a header of fifteen units with all flags but one, before code of the given size -/
def wideHeader (codeSize : Nat) : FatHeader := ⟨0xFFB, 15, 8, codeSize, 0x11000001⟩

/-- its bytes, behind one byte and in front of another -/
def wideFile (codeSize : Nat) : Bytes := ([0xFF] ++ (wideHeader codeSize).bytes ++ [0x2A]).toArray

theorem wideHeader_fits {codeSize : Nat} (h : codeSize < Bytes.limit 4) : (wideHeader codeSize).Fits where
  flags := (by decide : 0xFFB < 0x1000)
  format := (by decide : 0xFFB % 4 = 3)
  units := (by decide : 15 < 0x10)
  maxStack := (by decide : 8 < Bytes.limit 2)
  codeSize := h
  localsToken := (by decide : 0x11000001 < Bytes.limit 4)

theorem wideFile_holds (codeSize : Nat) : (wideFile codeSize).Holds 1 (wideHeader codeSize).bytes :=
  Bytes.holds_toArray [0xFF] _ [0x2A] rfl rfl

end Small

/-- the largest code that the header leaves room for is accepted, and one byte more is refused -/
theorem BodyHeader.readAt_fat_small :
    readAt (Small.wideFile 0xFFFFFFC3) 1 = .ok ⟨.fat, 60, 0xFFFFFFC3, 0xFFB, true⟩ ∧
    (∃ f : FatHeader, f.Fits ∧ 3 ≤ f.units ∧ ((Small.wideFile 0xFFFFFFC3).toList.drop 1).take 12 = f.bytes) ∧
    readAt (Small.wideFile 0xFFFFFFC4) 1 = .error (.codeTooLarge 0xFFFFFFC4) ∧
    Refused ((Small.wideFile 0xFFFFFFC4).toList.drop 1) (.codeTooLarge 0xFFFFFFC4) := by
  obtain ⟨hdecoded, hencoded, -⟩ := readAt_fat (Small.wideFile 0xFFFFFFC3) 1
  obtain ⟨hdecoded', -, hrefused⟩ := readAt_fat (Small.wideFile 0xFFFFFFC4) 1
  have hread := hdecoded _ (Small.wideHeader_fits (by decide)) (by decide) (Small.wideFile_holds _)
  rw [if_pos (by decide)] at hread
  have herror := hdecoded' _ (Small.wideHeader_fits (by decide)) (by decide) (Small.wideFile_holds _)
  rw [if_neg (by decide)] at herror
  obtain ⟨-, ⟨f, hfits, hunits, hbytes, -⟩, -⟩ := hencoded _ hread rfl
  exact ⟨hread, ⟨f, hfits, hunits, hbytes⟩, herror, (hrefused _).1 herror⟩

end CilPatch
