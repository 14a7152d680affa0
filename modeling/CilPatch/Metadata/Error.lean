/-
Why the metadata of an image cannot be read, and how each reason is worded.
-/
import CilPatch.Text

namespace CilPatch.Metadata

inductive ParseError where
  | noCliHeader
  | unmappedCliHeader (rva : Nat)
  | truncatedCliHeader
  | unmappedMetadata (rva : Nat)
  | rootPastEnd
  | badRootSignature
  | truncatedRoot
  | truncatedStreamHeader (index : Nat)
  | streamOutsideRoot (name : Text) (offset size : Nat)
  | missingTableStream
  | missingHeap
  | truncatedTableHeader
  | truncatedRowCounts
  | truncatedTables (needed present : Nat)
  | badMethodRow (row : Nat)
  | badTypeRow (row : Nat)
  deriving DecidableEq, Repr

namespace ParseError

def message : ParseError → Text
  | noCliHeader => Text.ascii "image has no CLI header (not a managed module)"
  | unmappedCliHeader rva =>
    Text.ascii "CLI header RVA " ++ Text.hex rva ++ Text.ascii " is not mapped by any section"
  | truncatedCliHeader => Text.ascii "truncated CLI header"
  | unmappedMetadata rva => Text.ascii "metadata RVA " ++ Text.hex rva ++ Text.ascii " is not mapped by any section"
  | rootPastEnd => Text.ascii "metadata root extends past the end of the file"
  | badRootSignature => Text.ascii "bad metadata root signature"
  | truncatedRoot => Text.ascii "truncated metadata root"
  | truncatedStreamHeader index => Text.ascii "truncated stream header " ++ Text.decimal index
  | streamOutsideRoot name offset size =>
    Text.ascii "stream " ++ name ++ Text.ascii " (" ++ Text.hex offset ++ Text.ascii "+" ++ Text.hex size
      ++ Text.ascii ") lies outside the metadata root"
  | missingTableStream => Text.ascii "missing #~ table stream"
  | missingHeap => Text.ascii "missing #Strings or #Blob heap"
  | truncatedTableHeader => Text.ascii "truncated table stream header"
  | truncatedRowCounts => Text.ascii "truncated table row counts"
  | truncatedTables needed present =>
    Text.ascii "table stream truncated: need " ++ Text.hex needed ++ Text.ascii " bytes, have " ++ Text.hex present
  | badMethodRow row =>
    Text.ascii "MethodDef row " ++ Text.decimal row ++ Text.ascii " has a bad name or signature index"
  | badTypeRow row => Text.ascii "TypeDef row " ++ Text.decimal row ++ Text.ascii " has a bad name index"

end ParseError

end CilPatch.Metadata
