/-
A failed patch of a file leaves the files as they were.

The output is written beside its place and then renamed, so what can be left of a failed attempt are directories: those
above the output are made before anything else. `patchFile_failure` is the main result.

Two things can go wrong with the file at the output path. A directory that is made can complete a path that steps up
through it, which then leads to a file that has been there all along. And when the path of the temporary file leads to
the output already, the output is written before it is known that the renaming succeeds. `patchFile_failure_appears`
shows both, and the main result says which paths and which files are safe from it.
-/
import CilPatch.Proofs.OutputFile

namespace CilPatch

open Files (FileTree Location NodeId)

variable {t u : FileTree} {path : Text} {content : Bytes} {e : PatchError}

/-! ## What a failed attempt leaves -/

namespace Output

/-- what a failed attempt to write to a path leaves of the files; `u` is the tree afterwards -/
structure FilesKept (t u : FileTree) (path : Text) : Prop extends FilesBeside t u path False where
  /-- the output path leads to the file that it led to, which has its bytes, unless the path of the temporary file led
  to it too -/
  output : ∀ node, t.stat path = .ok (.file node) → ¬ Overwrites t path node →
    u.stat path = .ok (.file node) ∧ u.content node = t.content node
  /-- once the directories were made, no path led to less than it leads to now, but for a new file that cannot be
  removed -/
  present : ∀ other node, u.stat other = .ok (.file node) →
    (prepared t path).stat other = .ok (.file node) ∨ ∃ loc, u.resolve other = .ok loc ∧ Leftover t path loc
  /-- the temporary file is there only if it was before or if its name may not be removed -/
  temporary : ∀ node, u.stat (temporary path) = .ok (.file node) →
    (prepared t path).stat (Output.temporary path) = .ok (.file node) ∨
      ∃ loc, NamesTemporary t path loc ∧ t.rules.refuses .remove loc ≠ none

/-- what it means that the directories of the output have been made -/
structure DirectoriesMade (t made : FileTree) (path : Text) : Prop where
  /-- nothing else is new -/
  grown : t.Grown made
  /-- nothing is new when the output has its directory -/
  unchanged : HasDirectory t path → made = t
  /-- no path that does not step up leads to a file to which it did not lead, unless links step up -/
  direct : t.Direct → ∀ other node, Files.dotDot ∉ Files.components (Text.untilNul other) →
    made.stat other = .ok (.file node) → t.stat other = .ok (.file node)

theorem directoriesMade (t : FileTree) (path : Text) : DirectoriesMade t (prepared t path) path where
  grown := grown_prepared t path
  unchanged := prepared_of_hasDirectory
  direct hdirect _ _ hup hstat := FileTree.stat_of_direct hdirect (grown_prepared t path) hup hstat nofun

theorem filesKept_refl (t : FileTree) (path : Text) : FilesKept t t path := by
  have hgrown := grown_prepared t path
  have hmade {other : Text} {node : NodeId} (hstat : t.stat other = .ok (.file node)) :
      (prepared t path).stat other = .ok (.file node) :=
    FileTree.stat_of_keepsWays hgrown.keepsWays hstat fun loc => hgrown.get?_eq_some
  exact ⟨filesBeside_of_grown (FileTree.Grown.refl t), fun _ hstat _ => ⟨hstat, rfl⟩, fun _ _ hstat => .inl (hmade hstat),
    fun _ hstat => .inl (hmade hstat)⟩

theorem stat_output_of_filesBeside {node : NodeId} (h : FilesBeside t u path False)
    (hstat : t.stat path = .ok (.file node)) (hover : ¬ Overwrites t path node) :
    u.stat path = .ok (.file node) ∧ u.content node = t.content node := by
  obtain ⟨loc, hloc, hnode⟩ := FileTree.stat_eq_ok_iff.1 hstat
  have hresolve := h.reached path loc node hloc hnode hover False.elim
  have hkept := h.kept loc node hnode (fun hlost => hover hlost.1) And.left
  exact ⟨FileTree.stat_eq_ok_iff.2 ⟨loc, hresolve, hkept⟩, h.bytes loc node hnode hover⟩

/-- what a path leads to was there before, or it is a new file where the temporary one was opened -/
theorem Replaced.stat_cases {place : Location} {other : Text} {node : NodeId} (h : Replaced t u path place False)
    (hstat : u.stat other = .ok (.file node)) : t.stat other = .ok (.file node) ∨
      u.resolve other = .ok place ∧ t.get? place = none ∧
        (¬ t.Names (temporary path) place ∨ t.rules.refuses .remove place ≠ none) := by
  obtain ⟨loc, hloc, hnode⟩ := FileTree.stat_eq_ok_iff.1 hstat
  rcases h.entries loc with hsame | ⟨-, -, hnone⟩ | ⟨hfalse, -⟩ | ⟨rfl, hnone, -, hstays⟩
  · have hold := hsame.symm.trans hnode
    have hresolve := FileTree.resolve_of_keepsWays (h.keepsWays_symm id) hloc hsame.symm
    exact .inl (FileTree.stat_eq_ok_iff.2 ⟨loc, hresolve, hold⟩)
  · rw [hnone] at hnode
    cases hnode
  · exact hfalse.elim
  · exact .inr ⟨hloc, hnone, hstays⟩

/-- when the temporary file is found by its path and was not before, it has its name, which may not be removed -/
theorem stat_temporary_of_removeFile {place : Location} {written : FileTree} {node : NodeId}
    (hopens : t.OpensAt (temporary path) place) (hdir : t.get? place ≠ some .dir) (hwrote : t.Wrote written place)
    (hstat : (written.removeFile (temporary path)).stat (temporary path) = .ok (.file node)) :
    t.stat (temporary path) = .ok (.file node) ∨
      ∃ loc, t.Names (temporary path) loc ∧ t.rules.refuses .remove loc ≠ none := by
  obtain ⟨temp, htemp⟩ := hopens.exists_names
  have hreplaced : Replaced t _ path place False := replaced_of_removeFile hopens hdir hwrote
  refine (hreplaced.stat_cases hstat).imp_right fun ⟨hresolve, hnone, hstays⟩ => ⟨temp, htemp, fun hgranted => ?_⟩
  by_cases hlink : t.IsLink temp
  · -- the link is gone, so its name would have to be that of the new file
    obtain ⟨link, target, hget⟩ := hlink
    have hgranted' : written.rules.refuses .remove temp = none := by rw [hwrote.rules, hgranted]
    have herase := FileTree.removeFile_of_names (htemp.of_keepsWays hwrote.keepsWays) (hwrote.get?_eq_some hget) nofun
      hgranted'
    have hgone : (written.removeFile (temporary path)).get? temp = none := by
      rw [herase, FileTree.get?_erase_of_ne_nil written htemp.ne_nil, if_pos rfl]
    have hname := htemp.of_resolve (hreplaced.keepsWays_symm id) hresolve
    obtain rfl := hname.eq_of_resolve (FileTree.not_isLink_of_none hgone) hresolve
    rw [hget] at hnone
    cases hnone
  · obtain rfl := htemp.eq_of_opensAt hlink hopens
    exact hstays.elim (fun h => h htemp) fun h => h hgranted

theorem stat_temporary_of_error {node : NodeId} (h : writeAtomically t path content = (.error e, u))
    (hstat : u.stat (temporary path) = .ok (.file node)) :
    (prepared t path).stat (temporary path) = .ok (.file node) ∨
      ∃ loc, NamesTemporary t path loc ∧ t.rules.refuses .remove loc ≠ none := by
  have hgrown := grown_prepared t path
  rcases writeAtomically_cases h with ⟨-, -, rfl⟩ | ⟨-, ⟨-, rfl⟩ | hreplace⟩
  · exact .inl (FileTree.stat_of_keepsWays hgrown.keepsWays hstat fun loc => hgrown.get?_eq_some)
  · exact .inl hstat
  · rcases replaceFile_cases hreplace with ⟨-, rfl⟩ | ⟨place, written, hopens, hdir, hwrote, ⟨-, rfl⟩ | ⟨hok, -⟩⟩
    · exact .inl hstat
    · have hleft := stat_temporary_of_removeFile hopens hdir hwrote hstat
      rwa [hgrown.rules] at hleft
    · cases hok

theorem filesKept_of_error (h : writeAtomically t path content = (.error e, u)) : FilesKept t u path := by
  have hbeside : FilesBeside t u path False := filesBeside_of_writeAtomically h nofun
  refine ⟨hbeside, fun node => stat_output_of_filesBeside hbeside, fun other node hstat => ?_,
    fun node => stat_temporary_of_error h⟩
  have hgrown := grown_prepared t path
  have hcases : u = t ∨ u = prepared t path ∨ ∃ place, Replaced (prepared t path) u path place False :=
    exists_replaced h nofun
  rcases hcases with rfl | rfl | ⟨place, hreplaced⟩
  · exact .inl (FileTree.stat_of_keepsWays hgrown.keepsWays hstat fun loc => hgrown.get?_eq_some)
  · exact .inl hstat
  · refine (hreplaced.stat_cases hstat).imp_right fun ⟨hresolve, hnone, hstays⟩ => ⟨place, hresolve, ?_⟩
    exact hreplaced.leftover hnone hstays

end Output

/-! ## Main result -/

/-- **A failed patch of a file leaves the files as they were.** The file at the output path keeps its bytes unless the
path of the temporary file led to it too, and no path leads to a file that it did not lead to once the directories of the
output were made, but for a temporary file that was created behind a symbolic link or may not be removed. Nothing at all
has changed when the error came before the writing. -/
theorem patchFile_failure {r : PatchRequest} (h : patchFile t r = (.error e, u)) :
    Output.FilesKept t u r.outputPath ∧
      Output.DirectoriesMade t (Output.prepared t r.outputPath) r.outputPath ∧
      ((e.IsIo → Output.namesFile r.outputPath = false) → u = t) := by
  rcases patchFile_cases t r with ⟨cause, -, hsame⟩ | ⟨s, content, hpatch⟩
  · rw [hsame] at h
    cases h
    exact ⟨Output.filesKept_refl t r.outputPath, Output.directoriesMade t r.outputPath, fun _ => rfl⟩
  · rw [hpatch] at h
    have hwrite := eq_error_of_map h
    refine ⟨Output.filesKept_of_error hwrite, Output.directoriesMade t r.outputPath, fun hearly => ?_⟩
    have hname := hearly (Output.isIo_of_writeAtomically hwrite)
    rcases Output.writeAtomically_cases hwrite with ⟨-, -, rfl⟩ | ⟨hnames, -⟩
    · rfl
    · rw [hname] at hnames
      cases hnames

/-! ### Requests that fail late -/

namespace Small

/-- the output lies behind a directory that is missing -/
def behind : PatchRequest := ⟨Text.ascii "m", Text.ascii "x/../f", Text.ascii "C", Text.ascii "F"⟩

theorem makeParent_behind :
    Output.makeParent disk behind.outputPath = (.ok (), disk.put [Text.ascii "x"] .dir) := by
  have hparent : Files.parent (Text.ascii "x/../f") = Text.ascii "x/.." := by decide
  have hup : disk.stat (Text.ascii "x/..") = .error .noEntry := rfl
  have hx : disk.missingDirectories (Text.ascii "x") [] = .ok [Text.ascii "x"] := by
    rw [FileTree.missingDirectories]
    rfl
  have hmissing : disk.missingDirectories (Text.ascii "x/..") [] = .ok [Text.ascii "x"] := by
    rw [FileTree.missingDirectories]
    exact hx
  have hmake : disk.makeDirectories (Text.ascii "x/..") = (.ok (), disk.put [Text.ascii "x"] .dir) := by
    rw [FileTree.makeDirectories_of_missing hup (by decide) hmissing]
    rfl
  rw [behind, Output.makeParent, hparent, hmake]
  rfl

/-- the directories above are made before the temporary file cannot be written -/
theorem writeAtomically_disk (content : Bytes) :
    Output.writeAtomically disk behind.outputPath content =
      (.error (.io (Text.ascii "x/../f.ilweave-tmp") (Text.ascii "Is a directory")), disk.put [Text.ascii "x"] .dir) := by
  have hname : Output.namesFile behind.outputPath = true := by decide
  rw [Output.writeAtomically, hname, makeParent_behind]
  rfl

theorem patchFile_behind : patchFile disk behind =
    (.error (.io (Text.ascii "x/../f.ilweave-tmp") (Text.ascii "Is a directory")), disk.put [Text.ascii "x"] .dir) := by
  rw [patchFile_of_ok (r := behind) readFile_disk patchBytes_F, writeAtomically_disk]
  rfl

end Small

/-- a directory is made and the patch fails; the files are the same, and a path without steps up shows them as before -/
theorem patchFile_failure_small : ∃ e made, patchFile Small.disk Small.behind = (.error e, made) ∧ made ≠ Small.disk ∧
    Output.FilesKept Small.disk made Small.behind.outputPath ∧
    Output.DirectoriesMade Small.disk made Small.behind.outputPath ∧ Small.disk.Direct ∧
    (made.stat (Text.ascii "./f") = .ok (.file 2) → Small.disk.stat (Text.ascii "./f") = .ok (.file 2)) := by
  obtain ⟨hkept, hmade, -⟩ := patchFile_failure Small.patchFile_behind
  have hprepared : Output.prepared Small.disk Small.behind.outputPath = Small.disk.put [Text.ascii "x"] .dir :=
    congrArg Prod.snd Small.makeParent_behind
  rw [hprepared] at hmade
  refine ⟨_, _, Small.patchFile_behind, ?_, hkept, hmade, Small.disk_direct, ?_⟩
  · intro h
    have hx : (Small.disk.put [Text.ascii "x"] .dir).get? [Text.ascii "x"] = none := by rw [h]; rfl
    cases hx
  · exact hmade.direct Small.disk_direct (Text.ascii "./f") 2 (by decide)

namespace Small

/-- files can be written, but no name can be given or taken away; the name of the temporary file is that of a link to `f` -/
def locked : FileTree where
  entries := [([Text.ascii "m"], .file 1), ([Text.ascii "f"], .file 2),
    ([Text.ascii "f.ilweave-tmp"], .link 3 (Text.ascii "f"))]
  content node := if node = 1 then file else #[0]
  rules := { Files.Rules.free with
    refuses := fun access _ =>
      if access = .remove ∨ access = .replace then some (.refused (Text.ascii "Permission denied")) else none }

/-- the output is the file `f` -/
def onto : PatchRequest := ⟨Text.ascii "m", Text.ascii "f", Text.ascii "C", Text.ascii "F"⟩

theorem patchFile_locked :
    patchFile locked onto = (.error (.io (Text.ascii "f") (Text.ascii "Permission denied")),
      (locked.setContent 2 #[]).setContent 2 (patchF.1.apply file)) := by
  have hmodule : locked.readFile (Text.ascii "m") = .ok file := rfl
  have hwrite (content : Bytes) : Output.writeAtomically locked (Text.ascii "f") content =
      (.error (.io (Text.ascii "f") (Text.ascii "Permission denied")),
        (locked.setContent 2 #[]).setContent 2 content) := rfl
  rw [patchFile_of_ok (r := onto) hmodule patchBytes_F, onto, hwrite]
  rfl

end Small

/-- a failed patch can make a file appear at the output path: the path led nowhere before, and now leads through the
directory that was made to a file that was there; and it can change a file at the output path, to which the path of the
temporary file led as well -/
theorem patchFile_failure_appears :
    (∃ e made, patchFile Small.disk Small.behind = (.error e, made) ∧
      Small.disk.stat Small.behind.outputPath = .error .noEntry ∧
      made.stat Small.behind.outputPath = .ok (.file 2)) ∧
    ∃ e u, patchFile Small.locked Small.onto = (.error e, u) ∧ Small.locked.readFile (Text.ascii "f") = .ok #[0] ∧
      u.readFile (Text.ascii "f") = .ok (Small.patchF.1.apply Small.file) ∧ Small.patchF.1.apply Small.file ≠ #[0] := by
  have hwritten (content : Bytes) :
      ((Small.locked.setContent 2 #[]).setContent 2 content).readFile (Text.ascii "f") = .ok content := by
    have hresolve : ((Small.locked.setContent 2 #[]).setContent 2 content).resolve (Text.ascii "f") =
        .ok [Text.ascii "f"] := rfl
    have hnode : ((Small.locked.setContent 2 #[]).setContent 2 content).get? [Text.ascii "f"] = some (.file 2) := rfl
    exact FileTree.readFile_of_resolve hresolve hnode rfl rfl
  refine ⟨⟨_, _, Small.patchFile_behind, rfl, rfl⟩, _, _, Small.patchFile_locked, rfl, hwritten _, fun h => ?_⟩
  have hsize : (Small.patchF.1.apply Small.file).size = 1 := by rw [h]; rfl
  rw [Replacement.size_apply] at hsize
  exact absurd hsize (by decide +kernel)

end CilPatch
