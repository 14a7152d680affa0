/-
Finding a heap entry with every step checked.

`Checked.entry` does the steps of `Blob.entry?` in their order, on the sizes that it works with. It reads the length of
the entry from the bytes that start at the index, so the cursor counts from there. What is left of the heap behind the
length is a difference, and the content is taken as a part of the heap. As in the search for a body, a step that goes
wrong ends with a `Fault`.
-/
import CilPatch.Blob
import CilPatch.Body.Checked

namespace CilPatch.Checked

/-- the content of the heap entry at `index` -/
def entry (heap : Bytes) (index : Nat) : Except Fault (Option Bytes) := do
  if heap.size ≤ index then return none
  else
    match (⟨← suffix heap index, 0⟩ : Blob.Cursor).compressed with
    | (none, _) => return none
    | (some length, c) =>
      let start := index + c.pos
      if (← difference heap.size start) < length then return none
      else
        let target ← part heap start length
        return some (heap.extract target.start target.stop)

end CilPatch.Checked
