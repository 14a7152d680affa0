/-
Compressed numbers are read exactly as they are written.

`Cursor.Passes` says which bytes stand between two cursors of a blob. A compressed number is read where one of its forms
stands, and reading goes on behind it, so no other form can be read there.

- `next_eq_some_iff`, `bigEndian_eq_some_iff`: one byte, and the digits of a number;
- `compressed_eq_some_iff`: a number in any of its forms;
- `Compressed.unique`: the form and the number follow from the bytes, whatever stands behind.
-/
import Mathlib.Tactic
import CilPatch.Signature.Grammar

namespace CilPatch.Blob

namespace Cursor

variable {c d e : Cursor} {s t : List UInt8}

/-! ## Bytes between two cursors -/

/-- the bytes stand at the cursor, and the other cursor is the one behind them -/
def Passes (c : Cursor) (s : List UInt8) (d : Cursor) : Prop :=
  c.rest = s ++ d.rest ∧ d = { c with pos := c.pos + s.length }

theorem Passes.nil (c : Cursor) : c.Passes [] c := ⟨rfl, rfl⟩

theorem Passes.append (hs : c.Passes s d) (ht : d.Passes t e) : c.Passes (s ++ t) e := by
  obtain ⟨hrest, rfl⟩ := hs
  obtain ⟨hrest', rfl⟩ := ht
  refine ⟨by rw [hrest, hrest', List.append_assoc], ?_⟩
  rw [List.length_append, Nat.add_assoc]

/-- whatever stands at a cursor can be passed -/
theorem exists_passes {rest : List UInt8} (h : c.rest = s ++ rest) : ∃ d, c.Passes s d ∧ d.rest = rest := by
  have hrest : ({ c with pos := c.pos + s.length } : Cursor).rest = rest := by
    rw [Cursor.rest, ← List.drop_drop, ← Cursor.rest, h, List.drop_left]
  exact ⟨_, ⟨by rw [hrest, h], rfl⟩, hrest⟩

theorem Passes.split (h : c.Passes (s ++ t) e) : ∃ d, c.Passes s d ∧ d.Passes t e := by
  obtain ⟨hrest, rfl⟩ := h
  rw [List.append_assoc] at hrest
  obtain ⟨d, hd, hrest'⟩ := exists_passes hrest
  refine ⟨d, hd, hrest', ?_⟩
  rw [hd.2, List.length_append, Nat.add_assoc]

/-- the cursor behind some bytes depends on how many they are -/
theorem Passes.eq (h : c.Passes s d) (h' : c.Passes s e) : d = e := h.2.trans h'.2.symm

theorem peek?_eq_head? (c : Cursor) : c.peek? = c.rest.head? := by
  rw [peek?, rest, List.head?_drop, Array.getElem?_toList]

theorem peek?_eq_some_iff {b : UInt8} : c.peek? = some b ↔ ∃ rest, c.rest = b :: rest := by
  rw [peek?_eq_head?, List.head?_eq_some_iff]

/-! ## Reading -/

theorem next_eq_some_iff {b : UInt8} : c.next = (some b, d) ↔ c.Passes [b] d := by
  refine ⟨fun h => ?_, fun h => ?_⟩
  · cases hrest : c.rest with
    | nil =>
      rw [next, peek?_eq_head?, hrest] at h
      cases h
    | cons x rest =>
      obtain ⟨hnext, hbehind⟩ := next_of_rest_eq_cons hrest
      rw [hnext] at h
      cases h
      exact ⟨by rw [hbehind, hrest]; rfl, rfl⟩
  · obtain ⟨hrest, rfl⟩ := h
    exact (next_of_rest_eq_cons hrest).1

/-- the number with these digits behind those of `acc` -/
def digits (acc : Nat) (s : List UInt8) : Nat := s.foldl (fun n b => n * 256 + b.toNat) acc

theorem bigEndian_eq_some_iff {n acc v : Nat} :
    bigEndian n acc c = (some v, d) ↔ ∃ s, s.length = n ∧ c.Passes s d ∧ v = digits acc s := by
  induction n generalizing acc c with
  | zero =>
    simp only [bigEndian, List.length_eq_zero_iff, Prod.mk.injEq, Option.some.injEq]
    refine ⟨fun h => ?_, fun h => ?_⟩
    · obtain ⟨rfl, rfl⟩ := h
      exact ⟨[], rfl, .nil c, rfl⟩
    · obtain ⟨s, rfl, hs, rfl⟩ := h
      exact ⟨rfl, (Passes.nil c).eq hs⟩
  | succ n ih =>
    rw [bigEndian]
    refine ⟨fun h => ?_, fun h => ?_⟩
    · split at h
      · cases h
      · rename_i b c' hb
        obtain ⟨s, rfl, hs, rfl⟩ := ih.1 h
        exact ⟨b :: s, rfl, (next_eq_some_iff.1 hb).append hs, rfl⟩
    · obtain ⟨s, hlength, hs, rfl⟩ := h
      obtain ⟨b, s, rfl⟩ := List.exists_cons_of_length_eq_add_one hlength
      obtain ⟨c', hb, hs⟩ := Passes.split (s := [b]) hs
      rw [next_eq_some_iff.2 hb]
      exact ih.2 ⟨s, by simpa using hlength, hs, rfl⟩

/-- a number is read where one of its forms stands -/
theorem compressed_eq_some_iff {v : Nat} : c.compressed = (some v, d) ↔ ∃ s, Compressed s v ∧ c.Passes s d := by
  unfold compressed
  refine ⟨fun h => ?_, fun h => ?_⟩
  · split at h
    · cases h
    · rename_i lead c' hlead
      rw [next_eq_some_iff] at hlead
      simp only [UInt8.lt_iff_toNat_lt, UInt8.reduceToNat] at h
      split_ifs at h with h1 h2 h3
      · cases h
        exact ⟨[lead], .one lead h1, hlead⟩
      · obtain ⟨s, hlength, hs, rfl⟩ := bigEndian_eq_some_iff.1 h
        obtain ⟨b, rfl⟩ := List.length_eq_one_iff.1 hlength
        exact ⟨[lead, b], .two lead b (not_lt.1 h1) h2, hlead.append hs⟩
      · obtain ⟨s, hlength, hs, rfl⟩ := bigEndian_eq_some_iff.1 h
        obtain ⟨b₁, b₂, b₃, rfl⟩ := List.length_eq_three.1 hlength
        exact ⟨[lead, b₁, b₂, b₃], .four lead b₁ b₂ b₃ (not_lt.1 h2) h3, hlead.append hs⟩
      · cases h
  · obtain ⟨s, hform, hs⟩ := h
    cases hform with
    | one a ha =>
      rw [next_eq_some_iff.2 hs]
      simp only [UInt8.lt_iff_toNat_lt, UInt8.reduceToNat, if_pos ha]
    | two a b ha ha' =>
      obtain ⟨c', hlead, hb⟩ := Passes.split (s := [a]) hs
      rw [next_eq_some_iff.2 hlead]
      simp only [UInt8.lt_iff_toNat_lt, UInt8.reduceToNat, if_neg (not_lt.2 ha), if_pos ha']
      exact bigEndian_eq_some_iff.2 ⟨[b], rfl, hb, rfl⟩
    | four a b₁ b₂ b₃ ha ha' =>
      obtain ⟨c', hlead, hb⟩ := Passes.split (s := [a]) hs
      rw [next_eq_some_iff.2 hlead]
      have h1 : ¬ a.toNat < 0x80 := by omega
      simp only [UInt8.lt_iff_toNat_lt, UInt8.reduceToNat, if_neg h1, if_neg (not_lt.2 ha), if_pos ha']
      exact bigEndian_eq_some_iff.2 ⟨[b₁, b₂, b₃], rfl, hb, rfl⟩

end Cursor

/-! ## One form at most -/

/-- a form is not the start of another one, since reading stops behind either -/
theorem Compressed.unique {s t a b : List UInt8} {m n : Nat} (hs : Compressed s m) (ht : Compressed t n)
    (h : s ++ a = t ++ b) : s = t ∧ m = n ∧ a = b := by
  let c : Cursor := ⟨(s ++ a).toArray, 0⟩
  have hrest : c.rest = s ++ a := rfl
  obtain ⟨d, hd, -⟩ := Cursor.exists_passes hrest
  obtain ⟨e, he, -⟩ := Cursor.exists_passes (hrest.trans h)
  have hread := (Cursor.compressed_eq_some_iff.2 ⟨s, hs, hd⟩).symm.trans (Cursor.compressed_eq_some_iff.2 ⟨t, ht, he⟩)
  rw [Prod.mk.injEq, Option.some.injEq] at hread
  obtain ⟨hvalue, hcursor⟩ := hread
  have hlength : s.length = t.length := by
    have := congrArg Cursor.pos hcursor
    rw [hd.2, he.2] at this
    simpa [c] using this
  obtain ⟨hform, hbehind⟩ := List.append_inj h hlength
  exact ⟨hform, hvalue, hbehind⟩

end CilPatch.Blob
