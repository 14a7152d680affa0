/-
Two buffers with the same bytes in a range give the same answer to every read inside it, and writes to disjoint ranges
do not meet.

- `leAt_congr`, `read?_congr`, `slice?_congr`: a read looks at its own range only;
- `agreeOn_write`: a write keeps what stands beside it;
- `write_of_holds`: writing what the buffer holds already changes nothing;
- `write_comm`: two writes to disjoint ranges commute.
-/
import Mathlib.Tactic
import CilPatch.Bytes.Holds

namespace CilPatch.Bytes

variable {a b c : Bytes} {s t : Span}

/-! ## Ranges -/

theorem Span.Disjoint.symm (h : s.Disjoint t) : t.Disjoint s := fun i ht hs => h i hs ht

/-- every offset of the first range lies in the second -/
def Span.Sub (s t : Span) : Prop := ∀ i, s.Mem i → t.Mem i

theorem Span.sub_mk {off size : Nat} (h1 : t.start ≤ off) (h2 : off + size ≤ t.stop) : Span.Sub ⟨off, size⟩ t := by
  intro i hi
  simp only [Span.Mem, Span.stop] at hi h2 ⊢
  omega

/-! ## Agreement -/

theorem AgreeOn.refl (b : Bytes) (s : Span) : AgreeOn b b s := fun _ _ => rfl

theorem AgreeOn.trans (h1 : AgreeOn a b s) (h2 : AgreeOn b c s) : AgreeOn a c s :=
  fun i hi => (h1 i hi).trans (h2 i hi)

theorem AgreeOn.mono (h : AgreeOn a b t) (hs : s.Sub t) : AgreeOn a b s := fun i hi => h i (hs i hi)

/-- a number that is read is the one at the offset -/
theorem eq_leAt_of_read? {width off v : Nat} (h : b.read? width off = some v) :
    off + width ≤ b.size ∧ v = b.leAt width off := by
  unfold read? at h
  split_ifs at h with hle
  cases h
  exact ⟨hle, rfl⟩

/-- inside the buffer a read gives the number at the offset -/
theorem read?_of_le {width off : Nat} (h : off + width ≤ b.size) :
    b.read? width off = some (b.leAt width off) := if_pos h

theorem index?_of_le {width off : Nat} (hw : width = 2 ∨ width = 4) (h : off + width ≤ b.size) :
    b.index? width off = some (b.leAt width off) := by
  rcases hw with rfl | rfl
  · exact read?_of_le h
  · exact read?_of_le h

theorem leAt_congr {width off : Nat} (h : AgreeOn a b ⟨off, width⟩) : a.leAt width off = b.leAt width off := by
  induction width generalizing off with
  | zero => rfl
  | succ width ih =>
    have hhead : a.getD off 0 = b.getD off 0 := by
      rw [Array.getD_eq_getD_getElem?, Array.getD_eq_getD_getElem?, h off (by simp [Span.Mem, Span.stop])]
    have htail : AgreeOn a b ⟨off + 1, width⟩ := h.mono (Span.sub_mk (by simp) (by simp [Span.stop]; omega))
    rw [leAt, leAt, hhead, ih htail]

theorem read?_congr {width off : Nat} (hsize : b.size = a.size) (h : AgreeOn a b ⟨off, width⟩) :
    b.read? width off = a.read? width off := by
  rw [read?, read?, hsize, leAt_congr h]

theorem slice?_congr {off n : Nat} (hsize : b.size = a.size) (h : AgreeOn a b ⟨off, n⟩) :
    b.slice? off n = a.slice? off n := by
  unfold slice?
  rw [hsize]
  split_ifs with hle
  · congr 1
    apply Array.ext_getElem?
    intro i
    by_cases hi : i < n
    · have := h (off + i) (by simp [Span.Mem, Span.stop]; omega)
      simp only [Array.getElem?_extract, hsize]
      rw [this]
    · simp only [Array.getElem?_extract]
      rw [if_neg (by omega), if_neg (by omega)]
  · rfl

/-! ## Writes -/

/-- writing what the buffer holds already changes nothing -/
theorem write_of_holds {x : List UInt8} {off : Nat} (hx : off + x.length ≤ b.size) (h : Holds b off x) :
    b.write off x = b := by
  apply Array.ext_getElem?
  intro i
  rw [getElem?_write b off x hx]
  split_ifs with hm
  · have := h (i - off) (by omega)
    rw [← this, Nat.add_sub_cancel' hm.1]
  · rfl

/-- a write keeps the bytes of every range that it misses -/
theorem agreeOn_write {x : List UInt8} {off : Nat} (hx : off + x.length ≤ b.size)
    (hd : Span.Disjoint ⟨off, x.length⟩ s) : AgreeOn b (b.write off x) s := by
  intro i hi
  rw [getElem?_write b off x hx]
  exact (if_neg fun hm => hd i hm hi).symm

/-- writes to disjoint ranges commute -/
theorem write_comm {x y : List UInt8} {p q : Nat} (hx : p + x.length ≤ b.size) (hy : q + y.length ≤ b.size)
    (hd : Span.Disjoint ⟨p, x.length⟩ ⟨q, y.length⟩) :
    (b.write p x).write q y = (b.write q y).write p x := by
  apply Array.ext_getElem?
  intro i
  rw [getElem?_write _ _ _ (by simpa using hy), getElem?_write _ _ _ hx,
    getElem?_write _ _ _ (by simpa using hx), getElem?_write _ _ _ hy]
  have := hd i
  simp only [Span.Mem, Span.stop] at this
  split_ifs with h1 h2
  · exact absurd h1 (this h2)
  · rfl
  · rfl
  · rfl

end CilPatch.Bytes
