/-
Texts as byte strings.

Names inside a module, file paths and messages are strings of bytes that need not be valid in any encoding, so a text
is a list of bytes and two texts are equal when they agree byte for byte. `ascii` writes the fixed part of a message,
`decimal` and `hex` the numbers in it.
-/

namespace CilPatch

/-- a string of bytes -/
abbrev Text := List UInt8

namespace Text

/-- the text of an ASCII literal, one byte per character -/
def ascii (s : String) : Text := s.toList.map fun c => UInt8.ofNat c.toNat

/-- the number in base `base` (at most 16), lower-case and without leading zeros -/
def digits (base n : Nat) : Text := (Nat.toDigits base n).map fun c => UInt8.ofNat c.toNat

/-- the number in decimal -/
def decimal (n : Nat) : Text := digits 10 n

/-- the number in hexadecimal after `0x` -/
def hex (n : Nat) : Text := ascii "0x" ++ digits 16 n

/-- the number in hexadecimal after `0x`, with zeros in between up to `width` bytes in all -/
def hexPadded (width n : Nat) : Text :=
  let ds := digits 16 n
  ascii "0x" ++ List.replicate (width - 2 - ds.length) 0x30 ++ ds

/-- the bytes before the first NUL: all of them when there is none -/
def untilNul (t : Text) : Text := t.takeWhile (· ≠ 0)

theorem zero_not_mem_untilNul (t : Text) : 0 ∉ t.untilNul := by
  induction t with
  | nil => simp [untilNul]
  | cons c t ih =>
    by_cases hc : c = 0
    · simp [untilNul, hc]
    · simpa [untilNul, hc, Ne.symm hc] using ih

/-- a text without a NUL is read up to its end, and on behind it -/
theorem untilNul_append {t : Text} (h : 0 ∉ t) (rest : Text) : untilNul (t ++ rest) = t ++ untilNul rest := by
  refine List.takeWhile_append_of_pos fun c hc => ?_
  rw [decide_eq_true_iff]
  rintro rfl
  exact h hc

/-- NULs behind the text are padding -/
theorem untilNul_append_replicate {t : Text} (h : 0 ∉ t) (n : Nat) : untilNul (t ++ List.replicate n 0) = t := by
  rw [untilNul_append h, untilNul, List.takeWhile_replicate]
  simp

example : hexPadded 4 0 = ascii "0x00" := by decide
example : hexPadded 10 0x06000001 = ascii "0x06000001" := by decide

end Text

end CilPatch
