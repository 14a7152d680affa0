/-
Method body headers (II.25.4).

A tiny header is one byte: the format in its low two bits and the code size in the other six. A fat header takes at
least twelve bytes: a word with the format, flags and the header size in units of four bytes, the stack size, the code
size and the token of the local variables. `BodyHeader.readAt` reads either kind.
-/
import CilPatch.Bytes

namespace CilPatch

/-- the two formats; `other` is a number that names none -/
inductive BodyEncoding where
  | tiny
  | fat
  | other (code : Nat)
  deriving DecidableEq, Repr

namespace BodyEncoding

/-- the formats in their numbering from 0 on -/
def ofCode : Nat → BodyEncoding
  | 0 => tiny
  | 1 => fat
  | code => other code

def text : BodyEncoding → Text
  | tiny => Text.ascii "tiny"
  | fat => Text.ascii "fat"
  | other _ => Text.ascii "unknown"

end BodyEncoding

structure BodyHeader where
  encoding : BodyEncoding
  headerSize : Nat
  codeSize : Nat
  /-- the low 12 bits of a fat header, zero for a tiny one -/
  flags : Nat
  /-- exception clauses follow the code -/
  moreSections : Bool
  deriving DecidableEq, Repr

/-- why there is no header -/
inductive HeaderError where
  | noBytes
  | unknownFormat (lead : Nat)
  | truncatedFat
  | headerTooSmall (size : Nat)
  | codeTooLarge (size : Nat)
  deriving DecidableEq, Repr

namespace HeaderError

def message : HeaderError → Text
  | noBytes => Text.ascii "no bytes at the body offset"
  | unknownFormat lead => Text.ascii "unknown header format bits in " ++ Text.hexPadded 4 lead
  | truncatedFat => Text.ascii "truncated fat header"
  | headerTooSmall size =>
    Text.ascii "fat header size " ++ Text.decimal size ++ Text.ascii " is below the minimum of 12"
  | codeTooLarge size => Text.ascii "fat code size " ++ Text.hex size ++ Text.ascii " overflows the body span"

end HeaderError

namespace BodyHeader

/-- the least size of a fat header -/
def fatSize : Nat := 12

/-- the bytes that header and code take, as a 32-bit number -/
def span (h : BodyHeader) : Nat := (h.headerSize + h.codeSize) % 0x100000000

/-- written `{encoding} header (.. bytes), code: .. bytes, flags: ..`, and whether more sections follow -/
def text (h : BodyHeader) : Text :=
  h.encoding.text ++ Text.ascii " header (" ++ Text.decimal h.headerSize ++ Text.ascii " bytes), code: "
    ++ Text.decimal h.codeSize ++ Text.ascii " bytes, flags: " ++ Text.hex h.flags
    ++ Text.ascii (if h.moreSections then ", more sections" else "")

/-- the tiny header with this first byte -/
def ofTiny (lead : Nat) : BodyHeader := ⟨.tiny, 1, lead / 4, 0, false⟩

/-- the fat header with this first word and code size -/
def ofFat (word codeSize : Nat) : Except HeaderError BodyHeader :=
  let headerSize := word / 4096 * 4
  let flags := word % 4096
  if headerSize < fatSize then .error (.headerTooSmall headerSize)
  else if 0x100000000 ≤ headerSize + codeSize then .error (.codeTooLarge codeSize)
  else .ok ⟨.fat, headerSize, codeSize, flags, flags.testBit 3⟩

/-- the header at `off`; headers with more sections are not refused here -/
def readAt (b : Bytes) (off : Nat) : Except HeaderError BodyHeader :=
  match b.u8? off with
  | none => .error .noBytes
  | some lead =>
    if lead % 4 = 2 then .ok (ofTiny lead)
    else if lead % 4 ≠ 3 then .error (.unknownFormat lead)
    else if off + fatSize ≤ b.size then ofFat (b.leAt 2 off) (b.leAt 4 (off + 4))
    else .error .truncatedFat

end BodyHeader

end CilPatch
