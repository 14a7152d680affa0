/-
What opening a module looks at.

Opening reads some fields of the headers, the place of the metadata in the CLI header, and the metadata root. Whatever
else a file holds, in method bodies, between sections or behind them, has no part in it.
-/
import CilPatch.Bytes.Holds
import CilPatch.Module

namespace CilPatch

open Bytes (Span)

namespace Pe.Image

/-- the spans of the headers that are read for an image -/
def consulted (file : Bytes) (image : Image) : List Span :=
  let lfanew := file.leAt 4 0x3C
  let optional := lfanew + 24
  let directories := optional + OptionalHeader.directoryCountOffset image.pe32Plus
  let table := optional + file.leAt 2 (lfanew + 20)
  [⟨0, 2⟩, ⟨0x3C, 4⟩, ⟨lfanew, 4⟩, ⟨lfanew + 4, 4⟩, ⟨lfanew + 20, 2⟩, ⟨optional, 2⟩,
      ⟨directories, 4⟩]
    ++ (if OptionalHeader.cliDirectory < file.leAt 4 directories then
      [⟨directories + 4 + OptionalHeader.cliDirectory * 8, 8⟩] else [])
    ++ (List.range image.sections.length).map fun i => ⟨table + i * Section.entrySize, 24⟩

end Pe.Image

namespace Metadata

/-- the span of the metadata root that the CLI header at `cli` tells of -/
def rootSpan (file : Bytes) (sections : List Pe.Section) (cli : Nat) : List Span :=
  match Pe.fileOffset? sections (file.leAt 4 (cli + 8)) with
  | none => []
  | some offset => [⟨offset, file.leAt 4 (cli + 12)⟩]

/-- the spans that are read for the metadata: their place in the CLI header, and the root -/
def consulted (file : Bytes) (sections : List Pe.Section) (cliRva : Nat) : List Span :=
  match Pe.fileOffset? sections cliRva with
  | none => []
  | some cli => ⟨cli + 8, 8⟩ :: rootSpan file sections cli

end Metadata

namespace Module

/-- all spans of the file that are read to open it -/
def consulted (m : Module) : List Span :=
  m.image.consulted m.bytes ++ Metadata.consulted m.bytes m.image.sections m.image.cliHeader.rva

/-- another file of the same size has the same bytes in all of them -/
def LooksLike (m : Module) (file : Bytes) : Prop :=
  file.size = m.bytes.size ∧ ∀ s ∈ m.consulted, m.bytes.AgreeOn file s

end Module

end CilPatch
