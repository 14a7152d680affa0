/-
Code behind a tiny header, written and read.

One byte has the format in its low two bits and the length of the code in the other six, so a tiny body is determined by
its code and code up to 63 bytes by its tiny body.

- `wrapTiny_eq_ok_iff`: which bytes a tiny body is;
- `BodyHeader.readAt_of_holds_tiny`, `wrapTiny_of_readAt`: from the code to the header and back;
- `wrapTiny_roundTrip`: the main result.
-/
import CilPatch.Body.Default
import CilPatch.Proofs.BodyHeaders

namespace CilPatch

open Bytes (Holds)

variable {b : Bytes} {off : Nat} {code body : List UInt8}

/-! ## Writing -/

theorem wrapTiny_eq_ok_iff :
    wrapTiny code = .ok body ↔ code.length ≤ 63 ∧ body = UInt8.ofNat (4 * code.length + 2) :: code := by
  unfold wrapTiny maxTinyCode
  rw [Nat.mul_comm]
  split_ifs with hlong
  · constructor
    · intro h
      cases h
    · rintro ⟨hshort, -⟩
      omega
  · constructor
    · intro h
      cases h
      exact ⟨Nat.not_lt.1 hlong, rfl⟩
    · rintro ⟨-, rfl⟩
      rfl

theorem exists_wrapTiny_iff : (∃ body, wrapTiny code = .ok body) ↔ code.length ≤ 63 := by
  constructor
  · rintro ⟨body, h⟩
    exact (wrapTiny_eq_ok_iff.1 h).1
  · intro h
    exact ⟨_, wrapTiny_eq_ok_iff.2 ⟨h, rfl⟩⟩

theorem length_of_wrapTiny (h : wrapTiny code = .ok body) : body.length = code.length + 1 := by
  obtain ⟨-, rfl⟩ := wrapTiny_eq_ok_iff.1 h
  rfl

/-! ## Reading -/

/-- the one byte of a tiny header -/
theorem toLE_one {n : Nat} (h : n < 256) : Bytes.toLE 1 n = [UInt8.ofNat n] := by
  rw [Bytes.toLE, Bytes.toLE, Nat.mod_eq_of_lt h]

/-- code behind a tiny header is read as that, whatever follows it -/
theorem BodyHeader.readAt_of_holds_tiny (hwrap : wrapTiny code = .ok body) (h : b.Holds off body) :
    readAt b off = .ok ⟨.tiny, 1, code.length, 0, false⟩ := by
  obtain ⟨hlen, rfl⟩ := wrapTiny_eq_ok_iff.1 hwrap
  have hhead : b.Holds off [UInt8.ofNat (4 * code.length + 2)] := Holds.left (t := code) h
  refine readAt_eq_ok_iff.2 (.tiny code.length (by omega) ?_)
  rw [toLE_one (by omega)]
  exact hhead

/-- the code stands behind the header -/
theorem holds_code_of_wrapTiny (hwrap : wrapTiny code = .ok body) (h : b.Holds off body) : b.Holds (off + 1) code := by
  obtain ⟨-, rfl⟩ := wrapTiny_eq_ok_iff.1 hwrap
  exact Holds.right (s := [UInt8.ofNat (4 * code.length + 2)]) h

/-- a tiny header and the code behind it are what the code is wrapped to -/
theorem wrapTiny_of_readAt {h : BodyHeader} (hread : BodyHeader.readAt b off = .ok h) (htiny : h.encoding = .tiny)
    (hin : off + h.span ≤ b.size) :
    wrapTiny (b.extract (off + h.headerSize) (off + h.span)).toList = .ok (b.extract off (off + h.span)).toList := by
  have hspan := (BodyHeader.span_of_readAt hread).2
  rw [hspan] at hin ⊢
  cases BodyHeader.readAt_eq_ok_iff.1 hread with
  | fat f hfits hunits hsmall hholds => cases htiny
  | tiny codeSize hcode hholds =>
    rw [toLE_one (by omega)] at hholds
    rw [← Nat.add_assoc] at hin ⊢
    have hlength := Bytes.length_extract (n := codeSize) hin
    have hbody : b.Holds off ([UInt8.ofNat (4 * codeSize + 2)] ++ (b.extract (off + 1) (off + 1 + codeSize)).toList) :=
      Bytes.holds_append.2 ⟨hholds, b.holds_extract (off + 1) codeSize⟩
    have hextract := hbody.eq_extract (List.cons_ne_nil _ _)
    rw [List.length_append, List.length_singleton, hlength, ← Nat.add_assoc] at hextract
    rw [hextract]
    refine wrapTiny_eq_ok_iff.2 ⟨?_, ?_⟩
    · rw [hlength]
      omega
    · rw [hlength]
      rfl

/-! ## Main result -/

/-- **Tiny bodies are written and read back.** Code has a tiny body exactly when it takes at most 63 bytes. Where such a
body stands in a file, whatever follows it, its header is read as a tiny one with the length of the code and nothing
else, and the code stands behind it. And where a tiny header is read whose code is in the file, wrapping the code gives
the bytes that stand there. -/
theorem wrapTiny_roundTrip :
    (∀ code, (∃ body, wrapTiny code = .ok body) ↔ code.length ≤ 63) ∧
    (∀ code body, wrapTiny code = .ok body → ∀ (b : Bytes) (off : Nat), b.Holds off body →
      BodyHeader.readAt b off = .ok ⟨.tiny, 1, code.length, 0, false⟩ ∧
      (b.extract (off + 1) (off + 1 + code.length)).toList = code) ∧
    (∀ (b : Bytes) (off : Nat) (h : BodyHeader), BodyHeader.readAt b off = .ok h → h.encoding = .tiny →
      off + h.span ≤ b.size →
      wrapTiny (b.extract (off + h.headerSize) (off + h.span)).toList = .ok (b.extract off (off + h.span)).toList) := by
  refine ⟨fun code => exists_wrapTiny_iff, ?read, fun b off h => wrapTiny_of_readAt⟩
  case read =>
    intro code body hwrap b off hbody
    refine ⟨BodyHeader.readAt_of_holds_tiny hwrap hbody, ?_⟩
    rcases eq_or_ne code [] with rfl | hne
    · simp
    · exact (holds_code_of_wrapTiny hwrap hbody).eq_extract hne

/-! ### The longest tiny body -/

namespace Small

/-- as much code as a tiny body can have -/
def longCode : List UInt8 := List.replicate 62 0 ++ [0x2A]

/-- its body, behind one byte and in front of two -/
def longFile : Bytes := ([0xFF] ++ (0xFE :: longCode) ++ [0x03, 0x03]).toArray

end Small

/-- 63 bytes of code are wrapped, read and wrapped again, and one more byte is too many -/
theorem wrapTiny_roundTrip_small : wrapTiny Small.longCode = .ok (0xFE :: Small.longCode) ∧
    Small.longFile.Holds 1 (0xFE :: Small.longCode) ∧
    BodyHeader.readAt Small.longFile 1 = .ok ⟨.tiny, 1, 63, 0, false⟩ ∧
    wrapTiny (Small.longFile.extract 2 65).toList = .ok (Small.longFile.extract 1 65).toList ∧
    ¬ ∃ body, wrapTiny (0 :: Small.longCode) = .ok body := by
  obtain ⟨hiff, hread, hwrapped⟩ := wrapTiny_roundTrip
  have hwrap : wrapTiny Small.longCode = .ok (0xFE :: Small.longCode) := rfl
  have hholds : Small.longFile.Holds 1 (0xFE :: Small.longCode) :=
    Bytes.holds_toArray [0xFF] _ [0x03, 0x03] rfl rfl
  obtain ⟨hheader, -⟩ := hread _ _ hwrap Small.longFile 1 hholds
  have hlong : ¬ (0 :: Small.longCode).length ≤ 63 := by decide
  exact ⟨hwrap, hholds, hheader, hwrapped Small.longFile 1 _ hheader rfl (by decide), fun h => hlong ((hiff _).1 h)⟩

end CilPatch
