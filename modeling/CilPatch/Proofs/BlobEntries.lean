/-
A heap entry is found exactly where one is written.

An entry is the length of its content in compressed form and the content behind it. Any form of the length will do, and
the entry has to end inside the heap.

- `entry?_eq_some_iff`: an entry is found where the heap holds a length and as many bytes;
- `entry_eq`: the checked steps give the same answer, so none of them goes wrong;
- `entry?_exact`: the main result.
-/
import CilPatch.Blob.Checked
import CilPatch.Proofs.BodyBounds
import CilPatch.Proofs.CompressedReads

namespace CilPatch

variable {heap s : Bytes} {index : Nat}

/-- the bytes that a buffer holds have others before and behind them -/
theorem Bytes.holds_iff_append {b : Bytes} {off : Nat} {s : List UInt8} (hs : s ≠ []) :
    b.Holds off s ↔ ∃ before after, b.toList = before ++ s ++ after ∧ before.length = off := by
  constructor
  · intro h
    have hsize := h.size_le hs
    obtain ⟨after, hafter⟩ := holds_iff_drop.1 h
    refine ⟨b.toList.take off, after, ?_, ?_⟩
    · rw [List.append_assoc, hafter, List.take_append_drop]
    · rw [List.length_take, Array.length_toList]
      omega
  · rintro ⟨before, after, hb, hoff⟩
    have := holds_toArray before s after rfl hoff
    rwa [← hb, Array.toArray_toList] at this

/-- bytes that end inside the buffer are a part of it, also when there are none -/
theorem Bytes.Holds.extract_of_le {b : Bytes} {off : Nat} {s : List UInt8} (h : b.Holds off s)
    (hend : off + s.length ≤ b.size) : b.extract off (off + s.length) = s.toArray := by
  rcases eq_or_ne s [] with rfl | hne
  · simp
  · exact h.extract_eq hne

namespace Blob

/-! ## Entries -/

theorem entry?_eq_some_iff :
    entry? heap index = some s ↔ ∃ form, Compressed form s.size ∧ heap.Holds index (form ++ s.toList) := by
  unfold entry?
  constructor
  · intro h
    split at h
    · cases h
    · rename_i n c hread
      obtain ⟨hend, rfl⟩ := Bytes.slice?_eq_some_iff.1 h
      obtain ⟨form, hform, hpasses⟩ := Cursor.compressed_eq_some_iff.1 hread
      obtain ⟨hlength, rfl⟩ := Cursor.passes_iff_holds.1 hpasses
      dsimp only at hend hlength ⊢
      have hsize : (heap.extract (index + form.length) (index + form.length + n)).size = n := by
        rw [Array.size_extract]
        omega
      exact ⟨form, by rwa [hsize], Bytes.holds_append.2 ⟨hlength, heap.holds_extract _ n⟩⟩
  · rintro ⟨form, hform, hholds⟩
    have hpasses : Cursor.Passes ⟨heap, index⟩ form ⟨heap, index + form.length⟩ :=
      Cursor.passes_iff_holds.2 ⟨hholds.left, rfl⟩
    -- the form is not empty, so the heap reaches up to the content even if that is
    have hend := hholds.size_le (List.append_ne_nil_of_left_ne_nil hform.ne_nil s.toList)
    rw [List.length_append, ← Nat.add_assoc] at hend
    rw [Cursor.compressed_eq_some_iff.2 ⟨form, hform, hpasses⟩]
    exact Bytes.slice?_eq_some_iff.2 ⟨hend, (hholds.right.extract_of_le hend).symm⟩

end Blob

/-! ## Checked steps -/

/-- the bytes from an offset on hold what the buffer holds from there on -/
theorem Bytes.holds_suffix {b : Bytes} {off i : Nat} {s : List UInt8} :
    Bytes.Holds (b.extract off b.size) i s ↔ b.Holds (off + i) s := by
  rw [holds_iff_drop, holds_iff_drop, Array.toList_extract, List.extract_eq_take_drop, List.take_of_length_le (by simp),
    List.drop_drop]

/-- a number is read from the bytes that start with it as from the heap -/
theorem Blob.compressed_suffix {n k : Nat} :
    (⟨heap.extract index heap.size, 0⟩ : Cursor).compressed = (some n, ⟨heap.extract index heap.size, k⟩) ↔
      (⟨heap, index⟩ : Cursor).compressed = (some n, ⟨heap, index + k⟩) := by
  simp only [Cursor.compressed_eq_some_iff, Cursor.passes_iff_holds, Bytes.holds_suffix, Nat.add_zero, Nat.zero_add,
    Cursor.mk.injEq, true_and, Nat.add_left_cancel_iff]

theorem Blob.compressed_suffix_ne {e : Cursor} (h : (⟨heap, index⟩ : Cursor).compressed = (none, e)) (n : Nat)
    (d : Cursor) : (⟨heap.extract index heap.size, 0⟩ : Cursor).compressed ≠ (some n, d) := by
  intro hread
  obtain ⟨form, -, -, -, -, -, rfl, -⟩ := Cursor.announces_of_compressed hread
  rw [compressed_suffix, h] at hread
  cases hread

namespace Checked

/-- what is behind the length of an entry is never less than nothing, and the content is a part of the heap -/
theorem entry_eq (heap : Bytes) (index : Nat) : entry heap index = .ok (Blob.entry? heap index) := by
  unfold entry Blob.entry?
  rcases Nat.lt_or_ge index heap.size with hlt | hge
  · simp only [if_neg (not_le.2 hlt), suffix_of_le hlt.le, bind, Except.bind]
    cases hread : (⟨heap, index⟩ : Blob.Cursor).compressed with
    | mk length d =>
      cases length with
      | none =>
        split
        · rfl
        · rename_i n e h
          exact absurd h (Blob.compressed_suffix_ne hread n e)
      | some length =>
        obtain ⟨form, -, -, -, -, -, rfl, hle⟩ := Blob.Cursor.announces_of_compressed hread
        dsimp only at hle ⊢
        simp only [Blob.compressed_suffix.2 hread, difference_of_le hle, Bytes.slice?]
        rcases Nat.lt_or_ge (heap.size - (index + form.length)) length with hshort | hroom
        · rw [if_pos hshort, if_neg (by omega)]
          rfl
        · have hend : index + form.length + length ≤ heap.size := by omega
          rw [if_neg (not_lt.2 hroom), if_pos hend, part_of_le hend]
          rfl
  · have hread : (⟨heap, index⟩ : Blob.Cursor).compressed = (none, ⟨heap, index⟩) :=
      Blob.Cursor.compressed_eq_none_iff.2 (.atEnd hge)
    rw [if_pos hge, hread]
    rfl

end Checked

namespace Blob

/-! ## Main result -/

/-- **A heap entry is found exactly where one is written.** An entry has some content exactly when the heap holds, from the
index on, a form of the length of the content and then the content. So an entry that is written with the length in front
of it is found, whatever stands before and behind it. No difference on the way is below zero. -/
theorem entry?_exact :
    (∀ (heap : Bytes) (index : Nat) (s : Bytes), entry? heap index = some s ↔ ∃ before form after,
      heap.toList = before ++ (form ++ s.toList) ++ after ∧ before.length = index ∧ Compressed form s.size) ∧
    (∀ before content after : List UInt8, content.length < 2 ^ 29 →
      entry? (before ++ encode content.length ++ content ++ after).toArray before.length = some content.toArray) ∧
    ∀ (heap : Bytes) (index : Nat), Checked.entry heap index = .ok (Blob.entry? heap index) := by
  refine ⟨?entry, ?written, Checked.entry_eq⟩
  case entry =>
    intro heap index s
    rw [entry?_eq_some_iff]
    constructor
    · rintro ⟨form, hform, hholds⟩
      obtain ⟨before, after, hheap, hindex⟩ :=
        (Bytes.holds_iff_append (List.append_ne_nil_of_left_ne_nil hform.ne_nil _)).1 hholds
      exact ⟨before, form, after, hheap, hindex, hform⟩
    · rintro ⟨before, form, after, hheap, hindex, hform⟩
      refine ⟨form, hform, (Bytes.holds_iff_append (List.append_ne_nil_of_left_ne_nil hform.ne_nil _)).2 ?_⟩
      exact ⟨before, after, hheap, hindex⟩
  case written =>
    intro before content after hlt
    refine entry?_eq_some_iff.2 ⟨encode content.length, compressed_encode hlt, ?_⟩
    exact Bytes.holds_toArray before _ after (by simp only [List.append_assoc]) rfl

/-- an entry of 200 bytes between others, one whose length is written longer than it has to be, and one that is cut off -/
theorem entry?_exact_long : (List.replicate 200 (7 : UInt8)).length < 2 ^ 29 ∧ encode 200 = [0x80, 200] ∧
    entry? ([1, 5] ++ encode (List.replicate 200 (7 : UInt8)).length ++ List.replicate 200 7 ++ [0]).toArray 2
      = some (List.replicate 200 7).toArray ∧
    entry? #[1, 5, 0xC0, 0, 0, 1, 6, 0] 2 = some #[6] ∧ entry? #[1, 5, 2, 6] 2 = none := by
  obtain ⟨hentry, hwritten, -⟩ := entry?_exact
  have hlong : (List.replicate 200 (7 : UInt8)).length < 2 ^ 29 := by
    rw [List.length_replicate]
    decide
  refine ⟨hlong, by decide, hwritten [1, 5] _ [0] hlong, ?padded, by decide⟩
  case padded =>
    have hform : Compressed [0xC0, 0, 0, 1] 1 := .four 0xC0 0 0 1 (by decide) (by decide)
    exact (hentry _ 2 #[6]).2 ⟨[1, 5], [0xC0, 0, 0, 1], [0], rfl, rfl, hform⟩

end Blob

end CilPatch
