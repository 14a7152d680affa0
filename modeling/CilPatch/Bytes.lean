/-
Bounds-checked little-endian reads from a byte buffer, and writes into one.

A read answers `none` when it would run past the end of the buffer. Offsets and sizes are natural numbers, so no check
can wrap; `Checked.View` has the same reads on machine words. `read?_eq_some_iff`, `slice?_eq_some_iff` and
`cstring?_eq_some_iff` say exactly when a read succeeds and what it gives; `getElem?_write` says what a write changes.
-/
import CilPatch.Text

namespace CilPatch

/-- a file or a part of one, with constant-time access -/
abbrev Bytes := Array UInt8

namespace Bytes

/-! ## Little-endian numbers -/

/-- the number whose little-endian bytes these are -/
def ofLE : List UInt8 → Nat
  | [] => 0
  | b :: bs => b.toNat + 256 * ofLE bs

/-- the `width` little-endian bytes of the number; higher bytes are dropped -/
def toLE : Nat → Nat → List UInt8
  | 0, _ => []
  | width + 1, n => UInt8.ofNat (n % 256) :: toLE width (n / 256)

/-- the little-endian number in the `width` bytes at `off`; bytes past the end count as zero -/
def leAt (b : Bytes) : (width off : Nat) → Nat
  | 0, _ => 0
  | width + 1, off => (b.getD off 0).toNat + 256 * leAt b width (off + 1)

/-- how many numbers there are of `width` bytes -/
def limit : Nat → Nat
  | 0 => 1
  | width + 1 => 256 * limit width

/-! ## Reads -/

/-- the little-endian number in the `width` bytes at `off` -/
def read? (b : Bytes) (width off : Nat) : Option Nat :=
  if off + width ≤ b.size then some (b.leAt width off) else none

def u8? (b : Bytes) (off : Nat) : Option Nat := b.read? 1 off

def u16? (b : Bytes) (off : Nat) : Option Nat := b.read? 2 off

def u32? (b : Bytes) (off : Nat) : Option Nat := b.read? 4 off

def u64? (b : Bytes) (off : Nat) : Option Nat := b.read? 8 off

/-- an index column: two bytes when `width` is 2, else four -/
def index? (b : Bytes) (width off : Nat) : Option Nat := b.read? (if width = 2 then 2 else 4) off

/-- the `n` bytes at `off` -/
def slice? (b : Bytes) (off n : Nat) : Option Bytes :=
  if off + n ≤ b.size then some (b.extract off (off + n)) else none

/-- the offset of the first zero byte at or after `off` -/
def terminator? (b : Bytes) (off : Nat) : Option Nat :=
  if h : off < b.size then
    if b[off] = 0 then some off else terminator? b (off + 1)
  else none
termination_by b.size - off

/-- the bytes from `off` to the first zero byte, which must lie inside the buffer -/
def cstring? (b : Bytes) (off : Nat) : Option Text :=
  (b.terminator? off).map fun stop => (b.extract off stop).toList

/-! ## Writes -/

/-- the buffer with `s` written over it from `off` on; what would lie past the end is dropped -/
def write (b : Bytes) (off : Nat) : List UInt8 → Bytes
  | [] => b
  | x :: xs => write (b.setIfInBounds off x) (off + 1) xs

/-! ## Laws -/

@[simp] theorem length_toLE (width n : Nat) : (toLE width n).length = width := by
  induction width generalizing n with
  | zero => rfl
  | succ width ih => simp [toLE, ih]

theorem ofLE_toLE (width n : Nat) : ofLE (toLE width n) = n % limit width := by
  induction width generalizing n with
  | zero => simp [toLE, ofLE, limit, Nat.mod_one]
  | succ width ih =>
    have h : (UInt8.ofNat (n % 256)).toNat = n % 256 := by simp [UInt8.toNat_ofNat']
    rw [toLE, ofLE, ih, h, limit, Nat.mod_mul]

/-- some bytes are the first of them and the ones behind it -/
theorem toList_extract_succ (b : Bytes) (n : Nat) {off : Nat} (h : off < b.size) :
    (b.extract off (off + (n + 1))).toList = b[off] :: (b.extract (off + 1) (off + 1 + n)).toList := by
  apply List.ext_getElem?
  intro i
  cases i with
  | zero => simp [h]
  | succ i =>
    simp only [Array.getElem?_toList, List.getElem?_cons_succ, Array.getElem?_extract]
    grind

/-- a number read from the buffer is the number of the bytes there -/
theorem leAt_eq_ofLE (b : Bytes) (width off : Nat) (h : off + width ≤ b.size) :
    b.leAt width off = ofLE (b.extract off (off + width)).toList := by
  induction width generalizing off with
  | zero => simp [leAt, ofLE]
  | succ width ih =>
    have hlt : off < b.size := by omega
    rw [toList_extract_succ b width hlt, ofLE, leAt, ih (off + 1) (by omega)]
    simp [Array.getD, hlt]

theorem leAt_lt (b : Bytes) (width off : Nat) : b.leAt width off < limit width := by
  induction width generalizing off with
  | zero => simp [leAt, limit]
  | succ width ih =>
    have := (b.getD off 0).toNat_lt
    have := ih (off + 1)
    rw [leAt, limit]
    omega

theorem read?_eq_some_iff {b : Bytes} {width off v : Nat} :
    b.read? width off = some v ↔
      off + width ≤ b.size ∧ v = ofLE (b.extract off (off + width)).toList := by
  by_cases h : off + width ≤ b.size
  · simp [read?, h, leAt_eq_ofLE b width off h, eq_comm]
  · simp [read?, h]

theorem slice?_eq_some_iff {b s : Bytes} {off n : Nat} :
    b.slice? off n = some s ↔ off + n ≤ b.size ∧ s = b.extract off (off + n) := by
  by_cases h : off + n ≤ b.size
  · simp [slice?, h, eq_comm]
  · simp [slice?, h]

/-- the terminator is the first zero byte at or after the offset -/
theorem terminator?_eq_some_iff {b : Bytes} {off stop : Nat} :
    b.terminator? off = some stop ↔
      off ≤ stop ∧ b[stop]? = some 0 ∧ ∀ i, off ≤ i → i < stop → b[i]? ≠ some 0 := by
  fun_induction terminator? b off with
  | case1 off h hz =>
    constructor
    · intro e
      cases e
      exact ⟨Nat.le_refl _, by simp [h, hz], by omega⟩
    · rintro ⟨hle, hs, hall⟩
      by_cases he : off = stop
      · rw [he]
      · exact absurd (by simp [h, hz]) (hall off (Nat.le_refl _) (by omega))
  | case2 off h hz ih =>
    rw [ih]
    constructor
    · rintro ⟨hle, hs, hall⟩
      refine ⟨by omega, hs, fun i hi hlt => ?_⟩
      by_cases he : i = off
      · subst he
        simp [h, hz]
      · exact hall i (by omega) hlt
    · rintro ⟨hle, hs, hall⟩
      have hne : off ≠ stop := by
        rintro rfl
        simp [h, hz] at hs
      exact ⟨by omega, hs, fun i hi hlt => hall i (by omega) hlt⟩
  | case3 off h =>
    constructor
    · simp
    · rintro ⟨hle, hs, -⟩
      rw [Array.getElem?_eq_none (by omega)] at hs
      cases hs

/-- there is no terminator when no byte from the offset on is zero -/
theorem terminator?_eq_none_iff {b : Bytes} {off : Nat} :
    b.terminator? off = none ↔ ∀ i, off ≤ i → b[i]? ≠ some 0 := by
  fun_induction terminator? b off with
  | case1 off h hz =>
    refine iff_of_false (Option.some_ne_none _) fun hall => hall off (Nat.le_refl _) ?_
    rw [Array.getElem?_eq_getElem h, hz]
  | case2 off h hz ih =>
    rw [ih]
    constructor
    · intro hall i hi
      rcases Nat.eq_or_lt_of_le hi with rfl | hlt
      · rw [Array.getElem?_eq_getElem h]
        exact fun he => hz (Option.some.inj he)
      · exact hall i hlt
    · intro hall i hi
      exact hall i (Nat.le_of_succ_le hi)
  | case3 off h =>
    refine iff_of_true rfl fun i hi => ?_
    rw [Array.getElem?_eq_none (by omega)]
    exact Option.some_ne_none _ ∘ Eq.symm

theorem cstring?_eq_some_iff {b : Bytes} {off : Nat} {t : Text} :
    b.cstring? off = some t ↔ ∃ stop, b.terminator? off = some stop ∧ (b.extract off stop).toList = t :=
  Option.map_eq_some_iff

@[simp] theorem size_write (b : Bytes) (off : Nat) (s : List UInt8) : (b.write off s).size = b.size := by
  induction s generalizing b off with
  | nil => rfl
  | cons x xs ih => simp [write, ih]

/-- a write changes the bytes it covers and no other -/
theorem getElem?_write (b : Bytes) (off : Nat) (s : List UInt8) (h : off + s.length ≤ b.size) (i : Nat) :
    (b.write off s)[i]? = if off ≤ i ∧ i < off + s.length then s[i - off]? else b[i]? := by
  induction s generalizing b off with
  | nil =>
    have : ¬ (off ≤ i ∧ i < off) := by omega
    simp [write, this]
  | cons x xs ih =>
    simp only [List.length_cons] at h
    rw [write, ih _ _ (by simp; omega)]
    by_cases hi : i = off
    · subst hi
      have hlt : i < b.size := by omega
      have hout : ¬ (i + 1 ≤ i ∧ i < i + 1 + xs.length) := by omega
      rw [if_neg hout]
      simp [hlt]
    · have hset : (b.setIfInBounds off x)[i]? = b[i]? := by
        rw [Array.getElem?_setIfInBounds]
        simp [Ne.symm hi]
      rw [hset]
      by_cases hr : off + 1 ≤ i ∧ i < off + 1 + xs.length
      · obtain ⟨k, rfl⟩ : ∃ k, i = off + 1 + k := ⟨i - (off + 1), by omega⟩
        have h1 : off ≤ off + 1 + k ∧ off + 1 + k < off + (xs.length + 1) := by omega
        have h2 : off + 1 + k - off = k + 1 := by omega
        simp only [List.length_cons, if_pos hr, if_pos h1, h2, List.getElem?_cons_succ]
        congr 1
        omega
      · have h1 : ¬ (off ≤ i ∧ i < off + (xs.length + 1)) := by omega
        simp only [List.length_cons, if_neg hr, if_neg h1]

end Bytes

end CilPatch
