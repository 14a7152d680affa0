/-
Patching a module file.

`patchFile` opens a module, replaces the method body and writes the whole image to the output path. The output is first
written to a temporary file beside it, which is then renamed over it, so a failure leaves what was at the output path.
Nothing in the file tree changes before the patch itself has succeeded and the output path is known to name a file.
-/
import CilPatch.Files.Directories
import CilPatch.Patch.Image

namespace CilPatch

open Files (FileTree FileError)

namespace Module

/-- opens the file a path leads to -/
def openFile (t : FileTree) (path : Text) : Except OpenError Module :=
  match t.readFile path with
  | .error e => .error ⟨path, e.message⟩
  | .ok content => ofBytes content path

end Module

/-- which method to patch in which module, and where to put the result -/
structure PatchRequest where
  modulePath : Text
  outputPath : Text
  typeName : Text
  methodName : Text
  deriving DecidableEq, Repr

namespace Output

/-- the path of the temporary file for an output path -/
def temporary (path : Text) : Text := path ++ Text.ascii ".ilweave-tmp"

/-- the path names a file: it does not end in a slash -/
def namesFile (path : Text) : Bool := Files.fileName path ≠ []

/-- creates the directory an output path lies in -/
def makeParent (t : FileTree) (path : Text) : Except PatchError Unit × FileTree :=
  if Files.parent path = [] then (.ok (), t)
  else
    match t.makeDirectories (Files.parent path) with
    | (.ok (), t') => (.ok (), t')
    | (.error e, t') => (.error (.io (Files.parent path) e.message), t')

/-- writes the temporary file and renames it; when that fails the temporary file is removed -/
def replaceFile (t : FileTree) (path : Text) (content : Bytes) : Except PatchError Unit × FileTree :=
  match t.openFile (temporary path) with
  | .error e => (.error (.io (temporary path) e.message), t)
  | .ok (loc, opened) =>
    match opened.fillFile loc content with
    | (.error e, written) => (.error (.io (temporary path) e.message), written.removeFile (temporary path))
    | (.ok (), written) =>
      match written.renameFile (temporary path) path with
      | .error e => (.error (.io path e.message), written.removeFile (temporary path))
      | .ok renamed => (.ok (), renamed)

/-- puts the content at an output path in one step -/
def writeAtomically (t : FileTree) (path : Text) (content : Bytes) : Except PatchError Unit × FileTree :=
  if !namesFile path then (.error (.io path (Text.ascii "output path does not name a file")), t)
  else
    match makeParent t path with
    | (.error e, t') => (.error e, t')
    | (.ok (), t') => replaceFile t' path content

end Output

/-- patches a method of a module file and writes the result -/
def patchFile (t : FileTree) (r : PatchRequest) : Except PatchError PatchSummary × FileTree :=
  match Module.openFile t r.modulePath with
  | .error e => (.error (.notOpened e), t)
  | .ok m =>
    match m.patch r.typeName r.methodName m.bytes with
    | (.error e, _) => (.error e, t)
    | (.ok summary, out) =>
      match Output.writeAtomically t r.outputPath out with
      | (.error e, t') => (.error e, t')
      | (.ok (), t') => (.ok summary, t')

end CilPatch
