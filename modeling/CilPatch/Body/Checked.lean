/-
Finding and replacing a body with every step checked.

Sizes and offsets are unsigned words of the machine. A difference of two wraps around when it would be below zero, the
32-bit span of a body wraps around when it is too large, and a part of a buffer, or a byte of the part, is taken without
asking whether it is there. `Checked.locate` and `Checked.patch` do the steps of `Module.locate` and `Module.patch` in
their order, each on the words that it works with. A step that goes wrong ends with a `Fault`, which is not one of the
causes for which a body is refused.
-/
import CilPatch.Bytes.Holds
import CilPatch.Patch.Image

namespace CilPatch.Checked

open Bytes (Span)

/-- what can go wrong in a step that is not guarded -/
inductive Fault where
  /-- a difference is below zero -/
  | underflow
  /-- a sum does not fit into 32 bits -/
  | wrapped
  /-- a part of a buffer, or a byte of a part, is not there -/
  | outOfRange
  deriving DecidableEq, Repr

/-! ## Steps -/

def difference (a b : Nat) : Except Fault Nat := if b ≤ a then .ok (a - b) else .error .underflow

def sum (a b : Nat) : Except Fault Nat := if a + b < Bytes.limit 4 then .ok (a + b) else .error .wrapped

/-- the bytes from the offset on -/
def suffix (b : Bytes) (off : Nat) : Except Fault Bytes :=
  if off ≤ b.size then .ok (b.extract off b.size) else .error .outOfRange

/-- `size` bytes of the buffer from the offset on -/
def part (b : Bytes) (off size : Nat) : Except Fault Span :=
  if off ≤ b.size ∧ size ≤ b.size - off then .ok ⟨off, size⟩ else .error .outOfRange

/-- writes one byte, which must lie in the part and in the buffer -/
def store (target : Span) (b : Bytes) (i : Nat) (x : UInt8) : Except Fault Bytes :=
  if target.Mem i ∧ i < b.size then .ok (b.setIfInBounds i x) else .error .outOfRange

/-- writes the bytes one after the other, from `i` on -/
def copy (target : Span) : List UInt8 → Nat → Bytes → Except Fault Bytes
  | [], _, b => return b
  | x :: xs, i, b => do copy target xs (i + 1) (← store target b i x)

/-- writes zeros from `i` up to the end of the part -/
def fill (target : Span) (i : Nat) (b : Bytes) : Except Fault Bytes := do
  copy target (List.replicate (← difference target.stop i) 0) i b

/-! ## Sections -/

def contains (s : Pe.Section) (rva : Nat) : Except Fault Bool := do
  if rva < s.virtualAddress then return false
  else return decide ((← difference rva s.virtualAddress) < max s.virtualSize s.rawSize)

/-- the first section that covers the address -/
def owner : List Pe.Section → (rva : Nat) → Except Fault (Option Pe.Section)
  | [], _ => return none
  | s :: sections, rva => do if ← contains s rva then return some s else owner sections rva

/-- where in the file the address is loaded from; this sum may wrap around -/
def fileOffset (sections : List Pe.Section) (rva : Nat) : Except Fault (Option Nat) := do
  match ← owner sections rva with
  | none => return none
  | some s => return some (((← difference rva s.virtualAddress) + s.rawPointer) % 0x100000000)

/-! ## Bodies -/

/-- the fat header with this first word and code size -/
def ofFat (word codeSize : Nat) : Except Fault (Except HeaderError BodyHeader) := do
  let headerSize := word / 4096 * 4
  let flags := word % 4096
  if headerSize < BodyHeader.fatSize then return .error (.headerTooSmall headerSize)
  else if (← difference 0xFFFFFFFF headerSize) < codeSize then return .error (.codeTooLarge codeSize)
  else return .ok ⟨.fat, headerSize, codeSize, flags, flags.testBit 3⟩

/-- the fat header at the start of the bytes -/
def readFat (b : Bytes) : Except Fault (Except HeaderError BodyHeader) :=
  match b.u16? 0, b.u32? 4 with
  | some word, some codeSize =>
    if b.size < BodyHeader.fatSize then return .error .truncatedFat else ofFat word codeSize
  | _, _ => return .error .truncatedFat

/-- the header at the start of the bytes -/
def readHeader (b : Bytes) : Except Fault (Except HeaderError BodyHeader) :=
  match b.u8? 0 with
  | none => return .error .noBytes
  | some lead =>
    if lead % 4 = 2 then return .ok (.ofTiny lead)
    else if lead % 4 ≠ 3 then return .error (.unknownFormat lead)
    else readFat b

/-- header and code do not fit between the offset and the end of a file of this size -/
def runsPast (size offset : Nat) (h : BodyHeader) : Except Fault Bool := do
  let available ← difference size offset
  if available < h.headerSize then return true
  else return decide ((← difference available h.headerSize) < h.codeSize)

/-- the body at an offset of the file -/
def bodyAt (m : Module) (d : MethodDescriptor) (offset : Nat) : Except Fault (Except LocateError LocatedBody) := do
  match ← readHeader (← suffix m.bytes offset) with
  | .error e => return .error (.unsupportedBody d e.message false)
  | .ok h =>
    if h.moreSections then return .error (.unsupportedBody d LocateError.extraSections true)
    else if ← runsPast m.bytes.size offset h then
      return .error (.unsupportedBody d (LocateError.pastEnd offset h) false)
    else return .ok ⟨offset, h⟩

/-- the body of a method -/
def locate (m : Module) (d : MethodDescriptor) : Except Fault (Except LocateError LocatedBody) := do
  if d.rva = 0 then return .error (.noBody d)
  else
    match ← fileOffset m.image.sections d.rva with
    | none => return .error (.unmapped d)
    | some offset => if m.bytes.size ≤ offset then return .error (.unmapped d) else bodyAt m d offset

/-! ## Patching -/

/-- writes the new body over the part of the buffer that the old one takes, and clears the rest of the part -/
def overwrite (out : Bytes) (offset span : Nat) (body : List UInt8) : Except Fault Bytes := do
  let target ← part out offset span
  let copied ← copy target body target.start out
  fill target (target.start + body.length) copied

/-- a body that is longer than its part is a fault -/
example : overwrite #[1, 2, 3] 0 1 [7, 8] = .error .outOfRange := rfl

/-- replaces a located body -/
def replace (d : MethodDescriptor) (l : LocatedBody) (out : Bytes) :
    Except Fault (Except PatchError PatchSummary × Bytes) := do
  match d.returnCategory.defaultBody with
  | .error e => return (.error (.ofEncode d e), out)
  | .ok body =>
    let span ← sum l.header.headerSize l.header.codeSize
    if span < body.length then return (.error (.bodyTooLarge d body.length span), out)
    else return (.ok ⟨d, l.fileOffset, l.header, span, body.length⟩, ← overwrite out l.fileOffset span body)

/-- patches a buffer that has the size of the module -/
def patch (m : Module) (type method : Text) (out : Bytes) :
    Except Fault (Except PatchError PatchSummary × Bytes) := do
  if out.size ≠ m.bytes.size then return (.error (m.sizeMismatch out), out)
  else
    match m.findType? type with
    | none => return (.error (.typeNotFound type), out)
    | some t =>
      match m.findMethod? t method with
      | none => return (.error (.methodNotFound type method), out)
      | some d =>
        match ← locate m d with
        | .error e => return (.error (.notLocated e), out)
        | .ok l => replace d l out

end CilPatch.Checked
