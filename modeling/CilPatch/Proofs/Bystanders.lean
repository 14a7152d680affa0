/-
Patching a file leaves the other files alone.

`patchFile_filesBeside` is the main result. Whether a patch succeeds or fails, a file keeps its bytes unless the path of
the temporary file led to it, and its place unless the temporary file had its name or the output has taken it. No file is
new but the output, and what was created for the temporary file and cannot be removed.

The temporary file has a fixed name beside the output. Whatever has this name already is written, moved and removed as if
it was new: `patchFile_takes_temporary` shows a patch that succeeds and loses such a file, and one that fails and changes
the module that was to be patched.
-/
import CilPatch.Proofs.Atomicity
import CilPatch.Proofs.FrontEnds

namespace CilPatch

open Files (FileTree)

/-- **Patching a file leaves the other files alone.** Whether the patch succeeds or fails, every file keeps its place and
its bytes, unless the path of the temporary file led to it or the output has taken its name. The paths that led to it
still do, and no file is new but the output and a temporary file that cannot be removed. -/
theorem patchFile_filesBeside (t : FileTree) (r : PatchRequest) :
    Output.FilesBeside t (patchFile t r).2 r.outputPath (∃ s, (patchFile t r).1 = .ok s) := by
  rcases patchFile_cases t r with ⟨e, -, hsame⟩ | ⟨s, content, hpatch⟩
  · rw [hsame]
    exact Output.filesBeside_of_grown (FileTree.Grown.refl t)
  · rw [hpatch]
    rcases hwrite : Output.writeAtomically t r.outputPath content with ⟨answer, u⟩
    refine Output.filesBeside_of_writeAtomically hwrite ?_
    rintro rfl
    exact ⟨s, rfl⟩

/-! ### Files with the name of the temporary one -/

namespace Small

/-- the small module, and a file that has the name of the temporary one for the output `g` -/
def crowded : FileTree where
  entries := [([Text.ascii "m"], .file 1), ([Text.ascii "g.ilweave-tmp"], .file 2)]
  content node := if node = 1 then file else #[0]
  rules := .free

/-- the small module, which also has the name of the temporary file for the output `o`, a directory -/
def doubled : FileTree where
  entries := [([Text.ascii "m"], .file 1), ([Text.ascii "o"], .dir), ([Text.ascii "o.ilweave-tmp"], .file 1)]
  content _ := file
  rules := .free

/-- the output is that directory -/
def ontoDirectory : PatchRequest := ⟨Text.ascii "m", Text.ascii "o", Text.ascii "C", Text.ascii "F"⟩

/-- the module is written before the renaming fails, and loses its second name -/
theorem patchFile_doubled : patchFile doubled ontoDirectory =
    (.error (.io (Text.ascii "o") (Text.ascii "Is a directory")),
      (((doubled.setContent 1 #[]).setContent 1 (patchF.1.apply file)).erase [Text.ascii "o.ilweave-tmp"])) := by
  have hmodule : doubled.readFile (Text.ascii "m") = .ok file := rfl
  have hwrite (content : Bytes) : Output.writeAtomically doubled (Text.ascii "o") content =
      (.error (.io (Text.ascii "o") (Text.ascii "Is a directory")),
        ((doubled.setContent 1 #[]).setContent 1 content).erase [Text.ascii "o.ilweave-tmp"]) := rfl
  rw [patchFile_of_ok (r := ontoDirectory) hmodule patchBytes_F, ontoDirectory, hwrite]
  rfl

end Small

/-- a patch that succeeds can lose a file: it stood beside the output under the name of the temporary file, and neither
path led to the other's file; and one that fails can change its module, if that also has the name of the temporary file -/
theorem patchFile_takes_temporary :
    (∃ s u, patchFile Small.crowded Small.fresh = (.ok s, u) ∧
      Small.crowded.readFile (Text.ascii "g.ilweave-tmp") = .ok #[0] ∧
      Small.crowded.stat Small.fresh.outputPath = .error .noEntry ∧
      u.resolve Small.fresh.outputPath = .ok [Text.ascii "g"] ∧ u.get? [Text.ascii "g.ilweave-tmp"] = none) ∧
    ∃ e u, patchFile Small.doubled Small.ontoDirectory = (.error e, u) ∧
      Small.doubled.readFile (Text.ascii "m") = .ok Small.file ∧
      u.readFile (Text.ascii "m") = .ok (Small.patchF.1.apply Small.file) ∧
      Small.patchF.1.apply Small.file ≠ Small.file := by
  have hwritten (content : Bytes) : (((Small.doubled.setContent 1 #[]).setContent 1 content).erase
      [Text.ascii "o.ilweave-tmp"]).readFile (Text.ascii "m") = .ok content := by
    have hresolve : (((Small.doubled.setContent 1 #[]).setContent 1 content).erase
      [Text.ascii "o.ilweave-tmp"]).resolve (Text.ascii "m") = .ok [Text.ascii "m"] := rfl
    have hnode : (((Small.doubled.setContent 1 #[]).setContent 1 content).erase
      [Text.ascii "o.ilweave-tmp"]).get? [Text.ascii "m"] = some (.file 1) := rfl
    exact FileTree.readFile_of_resolve hresolve hnode rfl rfl
  have hbyte : (Small.patchF.1.apply Small.file)[360]? ≠ Small.file[360]? := by decide +kernel
  exact ⟨⟨_, _, Small.patchFile_of_written rfl fun _ => rfl, rfl, rfl, rfl, rfl⟩,
    _, _, Small.patchFile_doubled, rfl, hwritten _, fun h => hbyte (by rw [h])⟩

end CilPatch
