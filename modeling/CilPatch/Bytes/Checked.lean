/-
Reading from a buffer with every access checked.

Offsets and sizes are words of 64 bits. A difference of two wraps around when it would be below zero, and a byte is
taken without asking whether it is there. The reads of a `View` do the steps of the reads of `Bytes` in their order:
they compare words, and then take the bytes. As in the search for a body, a step that goes wrong ends with a `Fault`.
-/
import CilPatch.Body.Checked

namespace CilPatch.Checked

/-- a buffer in memory, whose size is a word -/
structure View where
  bytes : Bytes
  size_lt : bytes.size < UInt64.size

namespace View

def size (v : View) : UInt64 := UInt64.ofNat v.bytes.size

/-- fewer than `n` bytes are left from the offset on; the difference wraps around when the offset is past the end -/
def lacks (v : View) (off n : UInt64) : Bool := v.size < off || v.size - off < n

/-! ## Steps -/

/-- the byte at the offset -/
def load (v : View) (off : UInt64) : Except Fault UInt8 :=
  match v.bytes[off.toNat]? with
  | some x => .ok x
  | none => .error .outOfRange

/-- `n` bytes, one after the other from the offset on -/
def loads (v : View) : (n : Nat) → (off : UInt64) → Except Fault (List UInt8)
  | 0, _ => return []
  | n + 1, off => do
    let x ← v.load off
    return x :: (← v.loads n (off + 1))

/-- two bytes of a buffer that has one are a fault -/
example : loads ⟨#[7], by decide⟩ 2 0 = .error .outOfRange := rfl

/-- the first zero among `n` bytes from the offset on; nothing behind it is looked at -/
def search (v : View) : (n : Nat) → (off : UInt64) → Except Fault (Option UInt64)
  | 0, _ => return none
  | n + 1, off => do if (← v.load off) = 0 then return some off else v.search n (off + 1)

/-! ## Reads -/

/-- the little-endian number in the `width` bytes at the offset -/
def read (v : View) (off width : UInt64) : Except Fault (Option Nat) := do
  if v.lacks off width then return none else return some (Bytes.ofLE (← v.loads width.toNat off))

/-- an index column in a word of 32 bits; a number of 16 bits is extended with zeros -/
def index (v : View) (off width : UInt64) : Except Fault (Option UInt32) := do
  if width = 2 then return (← v.read off 2).map fun n => (UInt16.ofNat n).toUInt32
  else return (← v.read off 4).map UInt32.ofNat

/-- the `n` bytes at the offset, which have to be a part of the buffer -/
def slice (v : View) (off n : UInt64) : Except Fault (Option Bytes) := do
  if v.lacks off n then return none
  else
    let target ← part v.bytes off.toNat n.toNat
    return some (v.bytes.extract target.start target.stop)

/-- the bytes from the offset up to the first zero byte -/
def cstring (v : View) (off : UInt64) : Except Fault (Option Text) := do
  if v.size ≤ off then return none
  else
    match ← v.search (v.size - off).toNat off with
    | none => return none
    | some stop => return some (← v.loads (stop - off).toNat off)

end View

end CilPatch.Checked
