/-
The message of an error in a buffer of the caller.

The caller gives a buffer and a size. As much of the message is written as leaves room for a NUL within that size, so the
text that the caller reads back is the start of the message, or all of it.

- `Printed`: what the caller finds in the buffer;
- `Printer.Exact.eq_write`: what a printer does is a write of this project;
- `formatError_eq`: the checked steps give the same answer, so the NUL never misses;
- `formatError_printed`: the main result.
-/
import CilPatch.Patch.Checked
import CilPatch.Proofs.BodyBounds
import CilPatch.Proofs.Resolution

namespace CilPatch

/-! ## Texts that are read back -/

/-- reading goes up to a NUL in the text, or to the one behind it -/
theorem Text.untilNul_prefix (t : Text) : untilNul t ++ [0] <+: t ++ [0] := by
  induction t with
  | nil => exact List.prefix_refl _
  | cons c t ih =>
    by_cases hc : c = 0
    · subst hc
      exact ⟨t ++ [0], rfl⟩
    · have hread : untilNul (c :: t) = c :: untilNul t := by simp [untilNul, hc]
      rw [hread]
      exact (List.prefix_cons_inj c).2 ih

/-! ## Printers -/

/-- a start of a text in front of the bytes of the buffer -/
theorem getElem?_write_take {b : Bytes} {limit : Nat} {text : Text} (hroom : min limit text.length ≤ b.size) (i : Nat) :
    (b.write 0 (text.take limit))[i]? = if i < min limit text.length then text[i]? else b[i]? := by
  have hlength : (text.take limit).length = min limit text.length := List.length_take
  rw [Bytes.getElem?_write b 0 _ (by omega), hlength]
  by_cases hi : i < min limit text.length
  · rw [if_pos hi, if_pos (by omega), Nat.sub_zero, List.getElem?_take_of_lt (by omega)]
  · rw [if_neg hi, if_neg (by omega)]

/-- a text that is printed is written up to the limit -/
theorem Printer.Exact.eq_write {print : Printer} (h : print.Exact) {b : Bytes} {limit : Nat} {text : Text}
    (hroom : min limit text.length ≤ b.size) :
    print b limit text = (b.write 0 (text.take limit), min limit text.length) := by
  refine Prod.ext (Array.ext_getElem? fun i => ?_) (h.stop b limit text hroom)
  rw [h.bytes b limit text hroom, getElem?_write_take hroom]

/-- the printer that writes the start of the text -/
def Printer.start : Printer := fun b limit text => (b.write 0 (text.take limit), min limit text.length)

theorem Printer.exact_start : start.Exact where
  stop := fun _ _ _ _ => rfl
  bytes := fun _ _ _ hroom => getElem?_write_take hroom

namespace Foreign

/-! ## Buffers -/

/-- what a caller finds after a message was handed over in `size` bytes of a buffer -/
structure Printed (message : Text) (size : Nat) (before after : Bytes) : Prop where
  size_eq : after.size = before.size
  /-- as much of the message as leaves room for a NUL, and the NUL -/
  text : after.Holds 0 (message.take (size - 1) ++ [0])
  /-- every other byte is as it was, also those within the size -/
  frame : ∀ i, min (size - 1) message.length < i → after[i]? = before[i]?
  /-- up to the first NUL stands a start of the message, and all of it when it has room and no NUL of its own -/
  read : ∃ text, after.cstring? 0 = some text ∧ text <+: message ∧ text.length < size ∧
    (message.length < size → 0 ∉ message → text = message)

variable {message : Text} {size : Nat} {b : Bytes}

theorem length_filled (message : Text) (size : Nat) :
    (message.take (size - 1) ++ [0]).length = min (size - 1) message.length + 1 := by
  rw [List.length_append, List.length_take, List.length_singleton]

/-- the bytes that are written stand in the buffer, and the others stay -/
theorem getElem?_fill (hsize : 0 < size) (hroom : min (size - 1) message.length < b.size) (i : Nat) :
    (fill b size message)[i]? =
      if i ≤ min (size - 1) message.length then (message.take (size - 1) ++ [0])[i]? else b[i]? := by
  have hlength := length_filled message size
  rw [fill, if_neg (by omega), Bytes.getElem?_write b 0 _ (by omega), hlength]
  simp only [Nat.zero_le, true_and, Nat.zero_add, Nat.sub_zero, Nat.lt_succ_iff]

theorem holds_fill_take (hsize : 0 < size) (hroom : min (size - 1) message.length < b.size) :
    (fill b size message).Holds 0 (message.take (size - 1) ++ [0]) := by
  intro i hi
  rw [length_filled] at hi
  rw [Nat.zero_add, getElem?_fill hsize hroom, if_pos (Nat.lt_succ_iff.1 hi)]

/-- what is read back of a text that was cut off -/
theorem exists_cstring?_of_holds {after : Bytes} (hsize : 0 < size)
    (h : after.Holds 0 (message.take (size - 1) ++ [0])) : ∃ text, after.cstring? 0 = some text ∧ text <+: message ∧
      text.length < size ∧ (message.length < size → 0 ∉ message → text = message) := by
  let shown := message.take (size - 1)
  have hstart : Text.untilNul shown <+: shown := List.takeWhile_prefix _
  obtain ⟨rest, hrest⟩ := Text.untilNul_prefix shown
  refine ⟨Text.untilNul shown, ?_, hstart.trans (List.take_prefix _ _), ?_, fun hlt h0 => ?_⟩
  · have hread : after.Holds 0 (Text.untilNul shown ++ [0] ++ rest) := by rwa [hrest]
    exact Bytes.cstring?_of_holds (Text.zero_not_mem_untilNul shown) hread.left
  · have hle := hstart.length_le.trans (List.length_take_le _ _)
    omega
  · have hwhole : shown = message := List.take_of_length_le (by omega)
    rw [hwhole]
    exact Files.untilNul_of_notMem h0

theorem printed_fill (hsize : 0 < size) (hroom : min (size - 1) message.length < b.size) :
    Printed message size b (fill b size message) where
  size_eq := by rw [fill, if_neg (by omega), Bytes.size_write]
  text := holds_fill_take hsize hroom
  frame := by
    intro i hi
    rw [getElem?_fill hsize hroom, if_neg (not_le.2 hi)]
  read := exists_cstring?_of_holds hsize (holds_fill_take hsize hroom)

end Foreign

/-! ## Checked steps -/

/-- the NUL lies in the part of the buffer that the caller gave away -/
theorem Checked.formatError_eq {print : Printer} (h : print.Exact) {e : PatchError} {size : Nat} {b : Bytes}
    (hsize : 0 < size) (hroom : min (size - 1) e.message.length < b.size) :
    formatError print e (some b) size = .ok (Foreign.formatError e (some b) size) := by
  have hstop : (⟨0, size⟩ : Bytes.Span).Mem (min (size - 1) e.message.length) := by
    simp only [Bytes.Span.Mem, Bytes.Span.stop]
    omega
  have hstore := store_of_mem (b := b.write 0 (e.message.take (size - 1))) hstop (by rwa [Bytes.size_write]) 0
  have hwrite := Bytes.write_write b 0 (e.message.take (size - 1)) [0]
  rw [List.length_take, Nat.zero_add] at hwrite
  simp only [formatError, if_neg hsize.ne', difference_of_le hsize, h.eq_write hroom.le, hstore, bind, Except.bind]
  rw [Foreign.formatError, Option.map_some, Foreign.fill, if_neg hsize.ne', ← hwrite]
  rfl

/-- a printer that counts on when the text is over makes the NUL miss the buffer -/
example : Checked.formatError (fun b _ text => (b, text.length)) (.typeNotFound []) (some #[1, 2, 3]) 3
    = .error .outOfRange := rfl

namespace Foreign

/-! ## Main result -/

/-- **A message never leaves the buffer of the caller.** Without a buffer, or with size zero, nothing is written. Else the
buffer receives as much of the message as leaves room for a NUL, then the NUL, and no other byte of it changes, so the
caller reads a start of the message, and all of it where it has room and no NUL of its own. The buffer has to have room
for what is written, as every buffer of that size has. -/
theorem formatError_printed {print : Printer} (h : print.Exact) (e : PatchError) :
    (∀ size, Checked.formatError print e none size = .ok none ∧ formatError e none size = none) ∧
    (∀ b, Checked.formatError print e (some b) 0 = .ok (some b) ∧ formatError e (some b) 0 = some b) ∧
    ∀ b size, 0 < size → min (size - 1) e.message.length < b.size →
      ∃ after, Checked.formatError print e (some b) size = .ok (some after) ∧
        formatError e (some b) size = some after ∧ Printed e.message size b after := by
  refine ⟨fun size => ⟨rfl, rfl⟩, fun b => ⟨rfl, rfl⟩, fun b size hsize hroom => ?_⟩
  exact ⟨fill b size e.message, Checked.formatError_eq h hsize hroom, rfl, printed_fill hsize hroom⟩

/-- a message of 17 bytes loses its last one when the size is 17, and is read back whole when it is 18; the byte behind
the size stays -/
theorem formatError_printed_typeNotFound : Printer.start.Exact ∧
    (PatchError.typeNotFound (Text.ascii "C")).message = Text.ascii "Type not found: C" ∧
    (∃ after, Checked.formatError Printer.start (.typeNotFound (Text.ascii "C")) (some (Array.replicate 19 0x23)) 17
        = .ok (some after) ∧
      after.cstring? 0 = some (Text.ascii "Type not found: ") ∧ after[17]? = some 0x23) ∧
    ∃ after, Checked.formatError Printer.start (.typeNotFound (Text.ascii "C")) (some (Array.replicate 19 0x23)) 18
        = .ok (some after) ∧
      after.cstring? 0 = some (Text.ascii "Type not found: C") ∧ after[18]? = some 0x23 := by
  obtain ⟨-, -, hprinted⟩ := formatError_printed Printer.exact_start (.typeNotFound (Text.ascii "C"))
  obtain ⟨cut, hcut, -, hc⟩ := hprinted (Array.replicate 19 0x23) 17 (by decide) (by decide)
  obtain ⟨whole, hwhole, -, hw⟩ := hprinted (Array.replicate 19 0x23) 18 (by decide) (by decide)
  obtain ⟨text, hread, -, -, hall⟩ := hw.read
  refine ⟨Printer.exact_start, by decide, ⟨cut, hcut, ?_, ?_⟩, whole, hwhole, ?_, ?_⟩
  · exact Bytes.cstring?_of_holds (by decide) hc.text
  · rw [hc.frame 17 (by decide)]
    decide
  · rw [hread, hall (by decide) (by decide)]
    decide
  · rw [hw.frame 18 (by decide)]
    decide

end Foreign

end CilPatch
