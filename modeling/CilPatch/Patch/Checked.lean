/-
Handing over the message of an error with every step checked.

The text is put into the buffer by a printer, which is not part of this project: `Printer.Exact` says what it is relied
on for. `Checked.formatError` does the steps of `Foreign.formatError` around it. The limit for the text is a difference,
and the NUL goes where the printer says that the text ends, which has to lie in the part of the buffer that the caller
gave away; a step that goes wrong ends with a `Fault`.
-/
import CilPatch.Body.Checked
import CilPatch.Patch.Foreign

namespace CilPatch

/-- puts a text at the start of a buffer, as far as a limit allows; with the buffer comes the place behind the text -/
abbrev Printer := Bytes → (limit : Nat) → Text → Bytes × Nat

/-- the printer writes the text up to the limit and nothing else, wherever that has room -/
structure Printer.Exact (print : Printer) : Prop where
  stop : ∀ b limit text, min limit text.length ≤ b.size → (print b limit text).2 = min limit text.length
  bytes : ∀ b limit text, min limit text.length ≤ b.size → ∀ i,
    (print b limit text).1[i]? = if i < min limit text.length then text[i]? else b[i]?

namespace Checked

/-- the message of an error in a buffer of the given size -/
def formatError (print : Printer) (e : PatchError) (buffer : Option Bytes) (size : Nat) :
    Except Fault (Option Bytes) :=
  match buffer with
  | none => return none
  | some b =>
    if size = 0 then return some b
    else do
      let (printed, stop) := print b (← difference size 1) e.message
      return some (← store ⟨0, size⟩ printed stop 0)

end Checked

end CilPatch
