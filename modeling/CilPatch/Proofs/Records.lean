/-
What a buffer holds is what is read from it.

- `holds_iff_drop`: the bytes at an offset are the first ones from there on;
- `read?_of_holds_lt`, `leAt_of_holds`, `u8?_of_holds`, `holds_leAt`: numbers;
- `cstring?_of_holds`: strings with their terminator;
- `slice?_of_holds`: runs of bytes;
- `Holds.cut`, `cstring?_cut`: what is left of them in a buffer that is cut off;
- `Holds.record`: one of many records of the same size.
-/
import Mathlib.Tactic
import CilPatch.Bytes.Holds

namespace CilPatch.Bytes

variable {b : Bytes} {off : Nat} {s t : List UInt8}

theorem Holds.left (h : Holds b off (s ++ t)) : Holds b off s := (holds_append.1 h).1

theorem Holds.right (h : Holds b off (s ++ t)) : Holds b (off + s.length) t := (holds_append.1 h).2

theorem Holds.size_le (h : Holds b off s) (hs : s ≠ []) : off + s.length ≤ b.size := ((holds_iff_extract hs).1 h).1

theorem Holds.eq_extract (h : Holds b off s) (hs : s ≠ []) : (b.extract off (off + s.length)).toList = s :=
  ((holds_iff_extract hs).1 h).2

theorem Holds.extract_eq (h : Holds b off s) (hs : s ≠ []) : b.extract off (off + s.length) = s.toArray :=
  Array.ext' (h.eq_extract hs)

/-- a list holds each of its parts behind those before it -/
theorem holds_toArray {l : List UInt8} (before s after : List UInt8) (hl : l = before ++ s ++ after)
    (hoff : before.length = off) : Holds l.toArray off s := by
  subst hl hoff
  intro i hi
  rw [List.getElem?_toArray, List.append_assoc, List.getElem?_append_right (Nat.le_add_right _ _),
    Nat.add_sub_cancel_left, List.getElem?_append_left hi]

/-- the bytes that a buffer holds at an offset are the first ones from there on -/
theorem holds_iff_drop : Holds b off s ↔ s <+: b.toList.drop off := by
  rw [List.prefix_iff_getElem?]
  constructor
  · intro h i hi
    rw [List.getElem?_drop, Array.getElem?_toList, h i hi, List.getElem?_eq_getElem hi]
  · intro h i hi
    rw [List.getElem?_eq_getElem hi, ← h i hi, List.getElem?_drop, Array.getElem?_toList]

/-- a buffer holds each part of itself -/
theorem holds_extract (b : Bytes) (off n : Nat) : Holds b off (b.extract off (off + n)).toList := by
  intro i hi
  rw [Array.length_toList, Array.size_extract] at hi
  rw [Array.getElem?_toList, Array.getElem?_extract, if_pos (by omega)]

theorem length_extract {n : Nat} (h : off + n ≤ b.size) : (b.extract off (off + n)).toList.length = n := by
  rw [Array.length_toList, Array.size_extract]
  omega

/-- a buffer that is cut off behind the bytes still holds them -/
theorem Holds.cut (h : Holds b off s) {n : Nat} (hn : off + s.length ≤ n) : Holds (b.extract 0 n) off s := by
  intro i hi
  have hb := h i hi
  rw [List.getElem?_eq_getElem hi] at hb ⊢
  have hsize : off + i < b.size := (Array.getElem?_eq_some_iff.1 hb).1
  rw [Array.getElem?_extract, if_pos (by omega), Nat.zero_add, hb]

/-! ## Numbers -/

theorem limit_pos (width : Nat) : 0 < limit width := by
  induction width with
  | zero => exact Nat.one_pos
  | succ width ih => rw [limit]; omega

theorem read?_of_holds_lt {width n : Nat} (hw : 0 < width) (hn : n < limit width) (h : Holds b off (toLE width n)) :
    b.read? width off = some n := by
  rw [read?_of_holds hw h, Nat.mod_eq_of_lt hn]

theorem leAt_of_holds (h : Holds b off s) (hs : s ≠ []) : b.leAt s.length off = ofLE s := by
  rw [leAt_eq_ofLE b s.length off (h.size_le hs), h.eq_extract hs]

theorem u8?_of_holds {x : UInt8} (h : Holds b off [x]) : b.u8? off = some x.toNat := by
  have h0 : b[off]? = some x := h 0 Nat.one_pos
  have hlt : off < b.size := (Array.getElem?_eq_some_iff.1 h0).1
  rw [u8?, read?, if_pos (Nat.succ_le_of_lt hlt), leAt, leAt, Array.getD_eq_getD_getElem?, h0]
  simp

/-- the buffer holds the bytes of each number that is read from it -/
theorem holds_leAt (b : Bytes) (width off : Nat) (h : off + width ≤ b.size) :
    Holds b off (toLE width (b.leAt width off)) := by
  induction width generalizing off with
  | zero => exact holds_nil b off
  | succ width ih =>
    have hlt : off < b.size := by omega
    have hx := (b.getD off 0).toNat_lt
    have hhead : Holds b off [b.getD off 0] := by
      intro i hi
      obtain rfl : i = 0 := by simpa using hi
      simp [Array.getD, hlt]
    have htail : Holds b (off + 1) (toLE width (b.leAt width (off + 1))) := ih (off + 1) (by omega)
    have hmod : ((b.getD off 0).toNat + 256 * b.leAt width (off + 1)) % 256 = (b.getD off 0).toNat := by omega
    have hdiv : ((b.getD off 0).toNat + 256 * b.leAt width (off + 1)) / 256 = b.leAt width (off + 1) := by omega
    rw [leAt, toLE, hmod, hdiv, UInt8.ofNat_toNat]
    exact holds_append.2 ⟨hhead, htail⟩

/-! ## Runs of bytes and strings -/

theorem slice?_of_holds (h : Holds b off s) (hs : s ≠ []) : b.slice? off s.length = some s.toArray := by
  rw [slice?, if_pos (h.size_le hs), h.extract_eq hs]

/-- a string that the buffer holds with its terminator is read as that string -/
theorem cstring?_of_holds {text : Text} (h0 : 0 ∉ text) (h : Holds b off (text ++ [0])) :
    b.cstring? off = some text := by
  have hstop : b.terminator? off = some (off + text.length) := by
    refine terminator?_eq_some_iff.2 ⟨Nat.le_add_right _ _, h.right 0 Nat.one_pos, fun i hle hlt hi => h0 ?_⟩
    have := h.left (i - off) (by omega)
    rw [Nat.add_sub_cancel' hle, hi] at this
    exact List.mem_of_getElem? this.symm
  refine cstring?_eq_some_iff.2 ⟨_, hstop, ?_⟩
  rcases eq_or_ne text [] with rfl | hne
  · simp
  · exact h.left.eq_extract hne

/-- a buffer that is cut off in front of the terminator holds no string there -/
theorem cstring?_cut {text : Text} (h0 : 0 ∉ text) (h : Holds b off text) {n : Nat} (hn : n ≤ off + text.length) :
    cstring? (b.extract 0 n) off = none := by
  rw [cstring?, Option.map_eq_none_iff, terminator?_eq_none_iff]
  intro stop hle hzero
  have hsize : stop < min n b.size := by
    have := (Array.getElem?_eq_some_iff.1 hzero).1
    rwa [Array.size_extract, Nat.sub_zero] at this
  rw [Array.getElem?_extract, if_pos (by omega), Nat.zero_add] at hzero
  -- the zero would be a byte of the text
  have htext := h (stop - off) (by omega)
  rw [Nat.add_sub_cancel' hle, hzero] at htext
  exact absurd (List.mem_of_getElem? htext.symm) h0

/-! ## Records of one size -/

section Records

variable {α : Type} {bytes : α → List UInt8} {size : Nat}

theorem length_records {rows : List α} (hsize : ∀ r ∈ rows, (bytes r).length = size) :
    (rows.flatMap bytes).length = rows.length * size := by
  induction rows with
  | nil => simp
  | cons r rows ih =>
    rw [List.flatMap_cons, List.length_append, hsize r List.mem_cons_self,
      ih fun q hq => hsize q (List.mem_cons_of_mem r hq), List.length_cons, Nat.succ_mul, Nat.add_comm]

/-- record number `i` stands behind the `i` records before it -/
theorem Holds.record {rows : List α} (h : Holds b off (rows.flatMap bytes))
    (hsize : ∀ r ∈ rows, (bytes r).length = size) {i : Nat} {r : α} (hi : rows[i]? = some r) :
    Holds b (off + i * size) (bytes r) := by
  induction rows generalizing off i with
  | nil => simp at hi
  | cons q rows ih =>
    rw [List.flatMap_cons] at h
    have hq := hsize q List.mem_cons_self
    cases i with
    | zero =>
      cases hi
      simpa using h.left
    | succ i =>
      have := ih h.right (fun r hr => hsize r (List.mem_cons_of_mem q hr)) (by simpa using hi)
      rwa [hq, Nat.add_assoc, Nat.add_comm size, ← Nat.succ_mul] at this

end Records

end CilPatch.Bytes
