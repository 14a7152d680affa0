/-
The interface for callers that pass strings and buffers by address.

A string ends at its first NUL and an absent one is empty. A result is a number: zero for success, else one for each
kind of error, whose message is copied into a buffer of the caller. `fill` never writes past the size it is given, and
always ends the text with a NUL.
-/
import CilPatch.Patch.File

namespace CilPatch.Foreign

open Files (FileTree)

/-- the text a caller passes -/
def readString (arg : Option Text) : Text := (arg.map Text.untilNul).getD []

/-- the request made of four strings -/
def request (modulePath outputPath typeName methodName : Option Text) : PatchRequest :=
  ⟨readString modulePath, readString outputPath, readString typeName, readString methodName⟩

/-- the number of a kind of error -/
def errorCode : PatchError → Nat
  | .typeNotFound _ => 1
  | .methodNotFound _ _ => 2
  | .notLocated (.noBody _) => 3
  | .notLocated (.unmapped _) => 4
  | .notLocated (.unsupportedBody _ _ _) => 5
  | .unsupportedReturn _ => 6
  | .bodyTooLarge _ _ _ => 7
  | .notOpened _ => 8
  | .io _ _ => 9

/-- what such a caller learns of a patch that was made -/
structure PatchInfo where
  fileOffset : Nat
  span : Nat
  encodedSize : Nat
  deriving DecidableEq, Repr

/-- the number of a result, with what belongs to it -/
structure Answer where
  code : Nat
  value : Except PatchError PatchInfo

/-- the answer for a result -/
def answer : Except PatchError PatchSummary → Answer
  | .ok s => ⟨0, .ok ⟨s.fileOffset, s.span, s.encodedSize⟩⟩
  | .error e => ⟨errorCode e, .error e⟩

/-- patches a module file on behalf of such a caller -/
def patch (t : FileTree) (modulePath outputPath typeName methodName : Option Text) : Answer × FileTree :=
  match patchFile t (request modulePath outputPath typeName methodName) with
  | (result, t') => (answer result, t')

/-- the buffer with as much of the text as fits into `size` bytes with a NUL behind it -/
def fill (buffer : Bytes) (size : Nat) (message : Text) : Bytes :=
  if size = 0 then buffer else buffer.write 0 (message.take (size - 1) ++ [0])

/-- the message of an error in a buffer of the given size; nothing is written when there is no buffer -/
def formatError (e : PatchError) (buffer : Option Bytes) (size : Nat) : Option Bytes :=
  buffer.map fun b => fill b size e.message

end CilPatch.Foreign
