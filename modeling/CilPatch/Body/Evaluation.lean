/-
Evaluation of method bodies.

A body runs on a stack of typed values until it returns, with at most one value left on the stack, which is its result.
`evaluate` reads the header at an offset of the file and runs the code behind it. Only the opcodes of `Opcode` are
known; any other one, a stack that does not fit and code that ends without a return have no result.
-/
import CilPatch.Body.Header
import CilPatch.Body.Opcode
import CilPatch.Signature.ReturnCategory

namespace CilPatch

/-- a value on the evaluation stack; floating-point numbers of both precisions are kept in double precision -/
inductive StackValue where
  | int32 (n : Int)
  | int64 (n : Int)
  | nativeInt (n : Int)
  | float (x : Float)
  | null
  deriving DecidableEq, Repr

namespace StackValue

/-- the number in a value as an integer, a fraction being cut off: a null has none -/
def integer? : StackValue → Option Int
  | int32 n => some n
  | int64 n => some n
  | nativeInt n => some n
  | float x => some x.toModel.toInt64.toInt
  | null => none

/-- the number in a value in double precision, rounded to nearest: a null has none -/
def double? : StackValue → Option Float
  | int32 n => some (.ofModel (.ofInt n))
  | int64 n => some (.ofModel (.ofInt n))
  | nativeInt n => some (.ofModel (.ofInt n))
  | float x => some x
  | null => none

end StackValue

namespace FloatingPoint

open Float.Model (UnpackedFloat Format)

/-- the nearest number of a format; infinities and no-numbers stay what they are -/
def round (format : Format) : UnpackedFloat → UnpackedFloat
  | .finite sign mantissa exponent _ => .round format sign mantissa exponent
  | x => x

/-- the nearest number of single precision, in double precision -/
def single (x : Float) : Float :=
  let narrow : Float32.Model := .pack (round .binary32 x.toModel.unpack)
  .ofModel (.pack (round .binary64 narrow.unpack))

end FloatingPoint

namespace Opcode

/-- replaces the number on top of the stack -/
def convert {α : Type} (number? : StackValue → Option α) (make : α → StackValue) :
    List StackValue → Option (List StackValue)
  | v :: stack => (number? v).map fun n => make n :: stack
  | [] => none

/-- what an opcode other than a return does to the stack -/
def execute (args : List StackValue) (stack : List StackValue) : Opcode → Option (List StackValue)
  | nop => some stack
  | ldarg n => args[n.val]?.map (· :: stack)
  | ldnull => some (.null :: stack)
  | ldcI4Zero => some (.int32 0 :: stack)
  | convI8 => convert StackValue.integer? .int64 stack
  | convI => convert StackValue.integer? .nativeInt stack
  | convR4 => convert StackValue.double? (fun x => .float (FloatingPoint.single x)) stack
  | convR8 => convert StackValue.double? .float stack
  | ret => none

end Opcode

/-- how a body returns -/
inductive Return where
  | nothing
  | value (v : StackValue)
  deriving DecidableEq, Repr

namespace Return

/-- the return with this stack: more than one value is too much -/
def ofStack? : List StackValue → Option Return
  | [] => some nothing
  | [v] => some (value v)
  | _ => none

end Return

namespace Body

/-- runs code up to its return -/
def run (args : List StackValue) : (code : List UInt8) → (stack : List StackValue) → Option Return
  | [], _ => none
  | b :: code, stack =>
    match Opcode.ofByte? b with
    | none => none
    | some .ret => Return.ofStack? stack
    | some op => (op.execute args stack).bind (run args code)

/-- runs the body at an offset of the file -/
def evaluate (file : Bytes) (offset : Nat) (args : List StackValue) : Option Return :=
  match BodyHeader.readAt file offset with
  | .error _ => none
  | .ok h => (file.slice? (offset + h.headerSize) h.codeSize).bind fun code => run args code.toList []

end Body

namespace ReturnCategory

/-- the default value of a category that has one -/
def default? : ReturnCategory → Option Return
  | void => some .nothing
  | int32 => some (.value (.int32 0))
  | int64 => some (.value (.int64 0))
  | nativeInt => some (.value (.nativeInt 0))
  | float32 => some (.value (.float 0))
  | float64 => some (.value (.float 0))
  | reference => some (.value .null)
  | unsupported => none
  | other _ => none

end ReturnCategory

end CilPatch
