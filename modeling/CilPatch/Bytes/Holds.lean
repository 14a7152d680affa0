/-
What a buffer holds at an offset, whatever stands around it.

`Holds b off s` says that the bytes of `s` stand in the buffer from `off` on. A layout of a file is described by what
it holds at which offsets; two buffers of one size agree on a span when they hold the same bytes there.
-/
import CilPatch.Bytes

namespace CilPatch.Bytes

/-- the bytes stand in the buffer from the offset on -/
def Holds (b : Bytes) (off : Nat) (s : List UInt8) : Prop := ∀ i, i < s.length → b[off + i]? = s[i]?

instance (b : Bytes) (off : Nat) (s : List UInt8) : Decidable (Holds b off s) :=
  inferInstanceAs (Decidable (∀ i, i < s.length → b[off + i]? = s[i]?))

/-- a range of offsets -/
structure Span where
  start : Nat
  size : Nat
  deriving DecidableEq, Repr

namespace Span

def stop (s : Span) : Nat := s.start + s.size

/-- the offset lies in the range -/
def Mem (s : Span) (i : Nat) : Prop := s.start ≤ i ∧ i < s.stop

/-- no offset lies in both ranges -/
def Disjoint (s t : Span) : Prop := ∀ i, s.Mem i → ¬ t.Mem i

instance (s : Span) (i : Nat) : Decidable (s.Mem i) := inferInstanceAs (Decidable (_ ∧ _))

theorem disjoint_iff {s t : Span} :
    s.Disjoint t ↔ s.size = 0 ∨ t.size = 0 ∨ s.stop ≤ t.start ∨ t.stop ≤ s.start := by
  constructor
  · intro h
    by_cases hlt : max s.start t.start < min s.stop t.stop
    · have := h (max s.start t.start)
      simp only [Mem, stop] at this hlt
      omega
    · simp only [stop] at hlt ⊢
      omega
  · intro h i hs ht
    simp only [Mem, stop] at h hs ht
    omega

instance (s t : Span) : Decidable (s.Disjoint t) := decidable_of_iff _ disjoint_iff.symm

end Span

/-- the buffers have the same bytes in the range -/
def AgreeOn (a b : Bytes) (s : Span) : Prop := ∀ i, s.Mem i → a[i]? = b[i]?

theorem holds_nil (b : Bytes) (off : Nat) : Holds b off [] := by
  intro i hi
  simp at hi

theorem holds_append {b : Bytes} {off : Nat} {s t : List UInt8} :
    Holds b off (s ++ t) ↔ Holds b off s ∧ Holds b (off + s.length) t := by
  constructor
  · intro h
    refine ⟨fun i hi => ?_, fun i hi => ?_⟩
    · rw [h i (by simp; omega), List.getElem?_append_left hi]
    · rw [Nat.add_assoc, h (s.length + i) (by simp; omega), List.getElem?_append_right (by omega)]
      congr 1
      omega
  · rintro ⟨hs, ht⟩ i hi
    by_cases h : i < s.length
    · rw [hs i h, List.getElem?_append_left h]
    · have := ht (i - s.length) (by simp at hi; omega)
      rw [List.getElem?_append_right (by omega), ← this]
      congr 1
      omega

/-- a buffer holds a string exactly when it is long enough and the bytes there are the string -/
theorem holds_iff_extract {b : Bytes} {off : Nat} {s : List UInt8} (hs : s ≠ []) :
    Holds b off s ↔ off + s.length ≤ b.size ∧ (b.extract off (off + s.length)).toList = s := by
  have hpos : 0 < s.length := List.length_pos_iff.2 hs
  constructor
  · intro h
    have hsize : off + s.length ≤ b.size := by
      have := h (s.length - 1) (by omega)
      rw [List.getElem?_eq_getElem (by omega)] at this
      have := (Array.getElem?_eq_some_iff.1 this).1
      omega
    refine ⟨hsize, List.ext_getElem? fun i => ?_⟩
    by_cases hi : i < s.length
    · rw [← h i hi]
      simp [hi]
    · rw [List.getElem?_eq_none (by simp; omega), List.getElem?_eq_none (by omega)]
  · rintro ⟨hsize, he⟩ i hi
    rw [← he, Array.getElem?_toList, Array.getElem?_extract]
    simp
    omega

/-- a number that a buffer holds is the number that is read -/
theorem read?_of_holds {b : Bytes} {off width n : Nat} (hw : 0 < width) (h : Holds b off (toLE width n)) :
    b.read? width off = some (n % limit width) := by
  have hne : toLE width n ≠ [] := by
    intro e
    have := length_toLE width n
    rw [e] at this
    simp at this
    omega
  obtain ⟨hsize, he⟩ := (holds_iff_extract hne).1 h
  rw [length_toLE] at hsize he
  rw [read?_eq_some_iff]
  exact ⟨hsize, by rw [he, ofLE_toLE]⟩

end CilPatch.Bytes
