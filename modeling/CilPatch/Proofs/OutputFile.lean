/-
A file is put in its place through a temporary one beside it.

Everything here is about the tree in which the directories of the output have been made, `Output.prepared`. Writing the
temporary file changes one file, the one that its path leads to, and only renaming and removing change names.

- `Output.names_ne`: the temporary file has another name than the output, unless a NUL ends both paths before they differ;
- `Output.replaceFile_cases`: how far writing and renaming can get;
- `Output.replaced_of_replaceFile`: what they change, name by name and file by file;
- `Output.filesBeside_of_writeAtomically`: what this means for the files of the tree;
- `Output.isIo_of_writeAtomically`: all of its errors are of one kind;
- `patchFile_cases`: patching a file fails before anything is written, or is writing what a patch of its content gives.
-/
import CilPatch.Patch.File
import CilPatch.Proofs.Replacement
import CilPatch.Proofs.TreeChanges

namespace CilPatch

open Files (FileTree FileError Entry Location NodeId)

/-- there was trouble with the files that are written -/
def PatchError.IsIo (e : PatchError) : Prop := ∃ path reason, e = .io path reason

namespace Output

variable {t u : FileTree} {path : Text} {content : Bytes} {answer : Except PatchError Unit} {place loc : Location}
  {node : NodeId}

/-! ## The temporary path -/

/-- what is put behind an output path for the temporary file -/
def suffix : Text := Text.ascii ".ilweave-tmp"

theorem zero_notMem_temporary (h0 : 0 ∉ path) : 0 ∉ temporary path := by
  have hsuffix : (0 : UInt8) ∉ suffix := by decide
  exact fun hmem => (List.mem_append.1 hmem).elim h0 hsuffix

/-- the output and the temporary file lie in the same directory, under names of which one is longer -/
theorem exists_names (hname : namesFile path = true) (h0 : 0 ∉ path) :
    ∃ names, Files.components (Text.untilNul path) = names ++ [Files.fileName path] ∧
      Files.components (Text.untilNul (temporary path)) = names ++ [Files.fileName path ++ suffix] := by
  have hne : Files.fileName path ≠ [] := by simpa [namesFile] using hname
  obtain ⟨names, hnames⟩ := Files.exists_components path hne
  refine ⟨names, ?_, ?_⟩
  · rw [Files.untilNul_of_notMem h0]
    simpa using hnames [] List.not_mem_nil
  · rw [Files.untilNul_of_notMem (zero_notMem_temporary h0)]
    exact hnames suffix (by decide)

/-- the output and the temporary file have different names -/
theorem names_ne {temp new : Location} (hname : namesFile path = true) (h0 : 0 ∉ path) (hnew : t.Names path new)
    (htemp : t.Names (temporary path) temp) : new ≠ temp := by
  obtain ⟨names, hpath, htemporary⟩ := exists_names hname h0
  obtain ⟨_, hlookup, ⟨dir, name, -, rfl⟩, rfl⟩ := hnew
  obtain ⟨_, hlookup', ⟨dir', name', -, rfl⟩, rfl⟩ := htemp
  obtain ⟨p, hp, hwalk⟩ := FileTree.lookup_eq_ok_iff.1 hlookup
  obtain ⟨q, hq, hwalk'⟩ := FileTree.lookup_eq_ok_iff.1 hlookup'
  rw [(FileTree.checkPath_eq_ok_iff.1 hp).1, hpath] at hwalk
  rw [(FileTree.checkPath_eq_ok_iff.1 hq).1, htemporary] at hwalk'
  obtain ⟨rfl, -⟩ := hwalk.siblings
  obtain ⟨rfl, -⟩ := hwalk'.siblings
  intro heq
  have hlast := (List.append_inj' heq rfl).2
  simp [suffix, Text.ascii] at hlast

/-! ## Writing and renaming -/

/-- how far writing and renaming got: the temporary file could not be opened, or it was written, and then it was renamed
or removed -/
theorem replaceFile_cases (h : replaceFile t path content = (answer, u)) : answer ≠ .ok () ∧ u = t ∨
    ∃ place written, t.OpensAt (temporary path) place ∧ t.get? place ≠ some .dir ∧ t.Wrote written place ∧
      (answer ≠ .ok () ∧ u = written.removeFile (temporary path) ∨
        answer = .ok () ∧ (∀ node, written.get? place = some (.file node) → written.content node = content) ∧
          written.renameFile (temporary path) path = .ok u) := by
  unfold replaceFile at h
  split at h
  · cases h
    exact .inl ⟨nofun, rfl⟩
  · rename_i place opened hopen
    obtain ⟨hopens, hdir, hwrote⟩ := FileTree.openFile_eq_ok hopen
    refine .inr ⟨place, ?_⟩
    split at h
    · rename_i hfill
      obtain ⟨part, rfl, -⟩ := FileTree.fillFile_eq hfill
      cases h
      exact ⟨_, hopens, hdir, (hwrote part).1, .inl ⟨nofun, rfl⟩⟩
    · rename_i hfill
      obtain ⟨whole, rfl, hwhole⟩ := FileTree.fillFile_eq hfill
      obtain rfl := hwhole rfl
      refine ⟨_, hopens, hdir, (hwrote whole).1, ?_⟩
      split at h
      · cases h
        exact .inl ⟨nofun, rfl⟩
      · rename_i hrename
        cases h
        exact .inr ⟨rfl, (hwrote whole).2, hrename⟩

/-- what writing and renaming change; `place` is where the temporary file was opened -/
structure Replaced (t u : FileTree) (path : Text) (place : Location) (written : Prop) : Prop where
  rules : u.rules = t.rules
  opens : t.OpensAt (temporary path) place
  place_ne_dir : t.get? place ≠ some .dir
  content : ∀ loc node, t.get? loc = some (.file node) → t.get? place ≠ some (.file node) →
    u.content node = t.content node
  /-- an entry stays, unless the temporary file has its name or the output takes it; a new file stays where it was
  created only if the temporary file has another name there, or may not be removed -/
  entries : ∀ loc, u.get? loc = t.get? loc ∨ t.Names (temporary path) loc ∧ t.get? loc ≠ some .dir ∧ u.get? loc = none ∨
    written ∧ t.Names path loc ∧ t.get? loc ≠ some .dir ∨
    loc = place ∧ t.get? loc = none ∧ (∃ node, u.get? loc = some (.file node)) ∧
      (¬ t.Names (temporary path) loc ∨ t.rules.refuses .remove loc ≠ none)

section

variable {written : FileTree} {p : Prop}

theorem replaced_of_removeFile (hopens : t.OpensAt (temporary path) place) (hdir : t.get? place ≠ some .dir)
    (hwrote : t.Wrote written place) : Replaced t (written.removeFile (temporary path)) path place p := by
  rcases written.removeFile_cases (temporary path) with hsame | ⟨temp, e, htemp, he, hedir, herase⟩
  · rw [hsame]
    refine ⟨hwrote.rules, hopens, hdir, hwrote.content, fun loc => ?_⟩
    rcases hwrote.get?_cases loc with hkept | ⟨rfl, hnone, node, hnode, -⟩
    · exact .inl hkept
    · refine .inr (.inr (.inr ⟨rfl, hnone, ⟨node, hnode⟩, ?_⟩))
      by_contra hremoved
      obtain ⟨hnames, hgranted⟩ := not_or.1 hremoved
      have hnames' := (not_not.1 hnames).of_keepsWays hwrote.keepsWays
      have hgranted' : written.rules.refuses .remove loc = none := by rw [hwrote.rules, not_not.1 hgranted]
      have herase := FileTree.removeFile_of_names hnames' hnode nofun hgranted'
      have hgone := FileTree.get?_erase_of_ne_nil written hopens.ne_nil loc
      rw [← herase, hsame, if_pos rfl, hnode] at hgone
      cases hgone
  · have htemp' := htemp.of_keepsWays hwrote.keepsWays_symm
    rw [herase]
    refine ⟨hwrote.rules, hopens, hdir, hwrote.content, fun loc => ?_⟩
    rw [FileTree.get?_erase_of_ne_nil written htemp.ne_nil]
    split_ifs with hloc
    · subst hloc
      refine .inr (.inl ⟨htemp', fun hold => ?_, rfl⟩)
      exact hedir (Option.some.inj (he.symm.trans (hwrote.get?_eq_some hold)))
    · rcases hwrote.get?_cases loc with hkept | ⟨rfl, hnone, node, hnode, -⟩
      · exact .inl hkept
      · exact .inr (.inr (.inr ⟨rfl, hnone, ⟨node, hnode⟩, .inl fun hnames => hloc (hnames.unique htemp')⟩))

theorem replaced_of_renameFile (hopens : t.OpensAt (temporary path) place) (hdir : t.get? place ≠ some .dir)
    (hwrote : t.Wrote written place) (hrename : written.renameFile (temporary path) path = .ok u) (hp : p) :
    Replaced t u path place p := by
  obtain ⟨old, new, e, hold, hnew, he, hedir, hmoved⟩ := FileTree.renameFile_eq_ok hrename
  have hold' := hold.of_keepsWays hwrote.keepsWays_symm
  have hnew' := hnew.of_keepsWays hwrote.keepsWays_symm
  rcases hmoved with ⟨hsame, rfl⟩ | ⟨-, hnewdir, rfl⟩
  · refine ⟨hwrote.rules, hopens, hdir, hwrote.content, fun loc => ?_⟩
    rcases hwrote.get?_cases loc with hkept | ⟨rfl, hnone, node, hnode, hfresh⟩
    · exact .inl hkept
    · by_cases hnames : t.Names (temporary path) loc
      · -- the output has the entry of the new file, so both paths end in one name
        obtain rfl := hold'.unique hnames
        rw [hnode] at he
        cases he
        have hplace : new = old := by
          by_contra hne
          exact hfresh new ((hwrote.elsewhere new hne).symm.trans hsame)
        exact .inr (.inr (.inl ⟨hp, hplace ▸ hnew', by rw [hnone]; exact nofun⟩))
      · exact .inr (.inr (.inr ⟨rfl, hnone, ⟨node, hnode⟩, .inl hnames⟩))
  · refine ⟨hwrote.rules, hopens, hdir, hwrote.content, fun loc => ?_⟩
    have hkeepsDir {other : Location} {e : Entry} (he : written.get? other = some e) (hedir : e ≠ .dir) :
        t.get? other ≠ some .dir :=
      fun hother => hedir (Option.some.inj (he.symm.trans (hwrote.get?_eq_some hother)))
    rw [FileTree.get?_put_of_ne_nil _ hnew.ne_nil, FileTree.get?_erase_of_ne_nil _ hold.ne_nil]
    split_ifs with hloc hloc'
    · subst hloc
      exact .inr (.inr (.inl ⟨hp, hnew', fun hother => hnewdir (hwrote.get?_eq_some hother)⟩))
    · subst hloc'
      exact .inr (.inl ⟨hold', hkeepsDir he hedir, rfl⟩)
    · rcases hwrote.get?_cases loc with hkept | ⟨rfl, hnone, node, hnode, -⟩
      · exact .inl hkept
      · exact .inr (.inr (.inr ⟨rfl, hnone, ⟨node, hnode⟩, .inl fun hnames => hloc' (hnames.unique hold')⟩))

end

/-- nothing has changed, or the temporary file was opened and what followed succeeded or failed -/
theorem replaced_of_replaceFile {written : Prop} (h : replaceFile t path content = (answer, u))
    (hwritten : answer = .ok () → written) : u = t ∨ ∃ place, Replaced t u path place written := by
  refine (replaceFile_cases h).imp And.right fun ⟨place, filled, hopens, hdir, hwrote, hthen⟩ => ⟨place, ?_⟩
  rcases hthen with ⟨-, rfl⟩ | ⟨hok, -, hrename⟩
  · exact replaced_of_removeFile hopens hdir hwrote
  · exact replaced_of_renameFile hopens hdir hwrote hrename (hwritten hok)

namespace Replaced

variable {written : Prop}

/-- a file that was opened is what the path of the temporary file leads to -/
theorem stat_temporary (h : Replaced t u path place written) (hnode : t.get? place = some (.file node)) :
    t.stat (temporary path) = .ok (.file node) :=
  FileTree.stat_eq_ok_iff.2 ⟨place, h.opens.resolve (by rw [hnode]; exact nofun), hnode⟩

/-- a file with the name of the temporary file is that file -/
theorem stat_of_names (h : Replaced t u path place written) (hname : t.Names (temporary path) loc)
    (hnode : t.get? loc = some (.file node)) : t.stat (temporary path) = .ok (.file node) := by
  obtain rfl := hname.eq_of_opensAt (FileTree.not_isLink_of_get? hnode nofun) h.opens
  exact h.stat_temporary hnode

/-- the ways that are kept when the output replaces no link -/
theorem keepsWays (h : Replaced t u path place written) (hnew : written → ∀ new, t.Names path new → ¬ t.IsLink new) :
    t.KeepsWays u (t.Names (temporary path)) := by
  refine ⟨h.rules, fun loc hdir => ?_, fun loc node target hkept hlink => ?_⟩
  · rcases h.entries loc with hsame | ⟨-, hne, -⟩ | ⟨-, -, hne⟩ | ⟨-, hnone, -⟩
    · exact hsame.trans hdir
    · exact absurd hdir hne
    · exact absurd hdir hne
    · rw [hnone] at hdir
      cases hdir
  · rcases h.entries loc with hsame | ⟨hlost, -⟩ | ⟨hwritten, hname, -⟩ | ⟨-, hnone, -⟩
    · exact hsame.trans hlink
    · exact absurd hlost hkept
    · exact absurd ⟨node, target, hlink⟩ (hnew hwritten loc hname)
    · rw [hnone] at hlink
      cases hlink

/-- and all ways have been there before when the output was not written -/
theorem keepsWays_symm (h : Replaced t u path place written) (hfailed : ¬ written) : u.KeepsWays t fun _ => False := by
  have hold (loc : Location) (e : Entry) (he : u.get? loc = some e) (hfile : ∀ node, e ≠ .file node) :
      t.get? loc = some e := by
    rcases h.entries loc with hsame | ⟨-, -, hnone⟩ | ⟨hwritten, -⟩ | ⟨-, -, ⟨node, hnode⟩, -⟩
    · exact hsame.symm.trans he
    · rw [hnone] at he
      cases he
    · exact absurd hwritten hfailed
    · rw [hnode] at he
      cases he
      exact absurd rfl (hfile node)
  exact ⟨h.rules.symm, fun loc hdir => hold loc .dir hdir nofun,
    fun loc node target _ hlink => hold loc (.link node target) hlink nofun⟩

end Replaced

/-! ## With the directories above -/

/-- the tree with the directories made that the output lies in, or as many of them as could be made -/
def prepared (t : FileTree) (path : Text) : FileTree := (makeParent t path).2

/-- the directory of the output is there before anything is written -/
def HasDirectory (t : FileTree) (path : Text) : Prop := Files.parent path = [] ∨ t.stat (Files.parent path) = .ok .dir

theorem prepared_of_hasDirectory (h : HasDirectory t path) : prepared t path = t := by
  unfold prepared makeParent
  split_ifs with hnone
  · rfl
  · have hdir := h.resolve_left hnone
    simp only [FileTree.makeDirectories, hdir]

theorem grown_prepared (t : FileTree) (path : Text) : t.Grown (prepared t path) := by
  have hmake := FileTree.grown_makeDirectories t (Files.parent path)
  unfold prepared makeParent
  split_ifs
  · exact FileTree.Grown.refl t
  · split <;> rename_i hmade <;> rwa [hmade] at hmake

/-- an attempt ends before anything is written, or it is the writing to the tree with the directories made -/
theorem writeAtomically_cases (h : writeAtomically t path content = (answer, u)) :
    (namesFile path = false ∧ answer ≠ .ok () ∧ u = t) ∨ namesFile path = true ∧
      (answer ≠ .ok () ∧ u = prepared t path ∨ replaceFile (prepared t path) path content = (answer, u)) := by
  unfold writeAtomically at h
  split_ifs at h with hname
  · cases h
    exact .inl ⟨by simpa using hname, nofun, rfl⟩
  · refine .inr ⟨by simpa using hname, ?_⟩
    unfold prepared
    split at h
    · rename_i hmade
      cases h
      exact .inl ⟨nofun, by rw [hmade]⟩
    · rename_i hmade
      rw [hmade]
      exact .inr h

/-- what an attempt can come to -/
theorem exists_replaced {written : Prop} (h : writeAtomically t path content = (answer, u))
    (hwritten : answer = .ok () → written) :
    u = t ∨ u = prepared t path ∨ ∃ place, Replaced (prepared t path) u path place written := by
  rcases writeAtomically_cases h with ⟨-, -, hsame⟩ | ⟨-, ⟨-, hmade⟩ | hreplace⟩
  · exact .inl hsame
  · exact .inr (.inl hmade)
  · exact .inr (replaced_of_replaceFile hreplace hwritten)

/-! ## The files of the tree -/

/-- the temporary file is written to this file: the path of the temporary file leads to it -/
def Overwrites (t : FileTree) (path : Text) (node : NodeId) : Prop :=
  (prepared t path).stat (temporary path) = .ok (.file node)

/-- the path of the temporary file ends in this name -/
def NamesTemporary (t : FileTree) (path : Text) (loc : Location) : Prop := (prepared t path).Names (temporary path) loc

/-- the path of the output ends in this name -/
def NamesOutput (t : FileTree) (path : Text) (loc : Location) : Prop := (prepared t path).Names path loc

/-- a file that was created by the path of the temporary file and stays: a symbolic link led to it, or it may not be
removed -/
def Leftover (t : FileTree) (path : Text) (loc : Location) : Prop :=
  (prepared t path).OpensAt (temporary path) loc ∧ t.get? loc = none ∧
    (¬ NamesTemporary t path loc ∨ t.rules.refuses .remove loc ≠ none)

/-- what writing to a path leaves of the files; `u` is the tree afterwards, and `written` says that it has succeeded -/
structure FilesBeside (t u : FileTree) (path : Text) (written : Prop) : Prop where
  /-- a file stays where it is, unless the temporary file had its name or the output has it now -/
  kept : ∀ loc node, t.get? loc = some (.file node) → ¬ (Overwrites t path node ∧ NamesTemporary t path loc) →
    ¬ (written ∧ NamesOutput t path loc) → u.get? loc = some (.file node)
  /-- it has the same bytes, unless the path of the temporary file led to it -/
  bytes : ∀ loc node, t.get? loc = some (.file node) → ¬ Overwrites t path node → u.content node = t.content node
  /-- every path that led to it still does, unless the output took the place of the file or of a symbolic link -/
  reached : ∀ other loc node, t.resolve other = .ok loc → t.get? loc = some (.file node) → ¬ Overwrites t path node →
    (written → ∀ new, NamesOutput t path new → loc ≠ new ∧ ¬ (prepared t path).IsLink new) → u.resolve other = .ok loc
  /-- no file is new but the output and what cannot be removed -/
  new : ∀ loc node, u.get? loc = some (.file node) →
    t.get? loc = some (.file node) ∨ written ∧ NamesOutput t path loc ∨ Leftover t path loc

theorem Replaced.leftover {written : Prop} (h : Replaced (prepared t path) u path place written)
    (hnone : (prepared t path).get? place = none)
    (hstays : ¬ (prepared t path).Names (temporary path) place ∨ (prepared t path).rules.refuses .remove place ≠ none) :
    Leftover t path place := by
  have hgrown := grown_prepared t path
  refine ⟨h.opens, ?_, by rwa [hgrown.rules] at hstays⟩
  by_contra hthere
  obtain ⟨e, he⟩ := Option.ne_none_iff_exists'.1 hthere
  rw [hgrown.get?_eq_some he] at hnone
  cases hnone

theorem filesBeside_of_grown {written : Prop} (h : t.Grown u) : FilesBeside t u path written where
  kept _ _ hold _ _ := h.get?_eq_some hold
  bytes _ _ _ _ := congrFun h.content _
  reached _ _ _ hresolve hold _ _ :=
    FileTree.resolve_of_keepsWays h.keepsWays hresolve ((h.get?_eq_some hold).trans hold.symm)
  new _ _ hnew := .inl (h.get?_eq_some_of_ne_dir hnew nofun)

theorem filesBeside_of_replaced {written : Prop} (h : Replaced (prepared t path) u path place written) :
    FilesBeside t u path written := by
  have hgrown := grown_prepared t path
  have hkept (loc : Location) (node : NodeId) (hold : t.get? loc = some (.file node))
      (htemp : ¬ (Overwrites t path node ∧ NamesTemporary t path loc)) (hout : ¬ (written ∧ NamesOutput t path loc)) :
      u.get? loc = some (.file node) := by
    have hmid := hgrown.get?_eq_some hold
    rcases h.entries loc with hsame | ⟨hname, -⟩ | ⟨hwritten, hname, -⟩ | ⟨-, hnone, -⟩
    · exact hsame.trans hmid
    · exact absurd ⟨h.stat_of_names hname hmid, hname⟩ htemp
    · exact absurd ⟨hwritten, hname⟩ hout
    · rw [hnone] at hmid
      cases hmid
  refine ⟨hkept, fun loc node hold hover => ?_, fun other loc node hresolve hold hover hout => ?_, fun loc node hnew => ?_⟩
  · rw [← hgrown.content]
    exact h.content loc node (hgrown.get?_eq_some hold) fun hplace => hover (h.stat_temporary hplace)
  · have hmid := hgrown.get?_eq_some hold
    have hthere := hkept loc node hold (fun hlost => hover hlost.1) fun hlost => (hout hlost.1 loc hlost.2).1 rfl
    have hresolve' := FileTree.resolve_of_keepsWays hgrown.keepsWays hresolve (hmid.trans hold.symm)
    have hways := h.keepsWays fun hwritten new hname => (hout hwritten new hname).2
    refine (FileTree.resolve_of_lost hways h.opens h.place_ne_dir hresolve' (hthere.trans hmid.symm)).resolve_right ?_
    rintro rfl
    exact hover (h.stat_temporary hmid)
  · rcases h.entries loc with hsame | ⟨-, -, hnone⟩ | ⟨hwritten, hname, -⟩ | ⟨rfl, hnone, -, hstays⟩
    · exact .inl (hgrown.get?_eq_some_of_ne_dir (hsame.symm.trans hnew) nofun)
    · rw [hnone] at hnew
      cases hnew
    · exact .inr (.inl ⟨hwritten, hname⟩)
    · exact .inr (.inr (h.leftover hnone hstays))

theorem filesBeside_of_writeAtomically {written : Prop} (h : writeAtomically t path content = (answer, u))
    (hwritten : answer = .ok () → written) : FilesBeside t u path written := by
  rcases exists_replaced h hwritten with rfl | rfl | ⟨place, hreplaced⟩
  · exact filesBeside_of_grown (FileTree.Grown.refl u)
  · exact filesBeside_of_grown (grown_prepared t path)
  · exact filesBeside_of_replaced hreplaced

/-! ## Errors -/

theorem isIo_of_makeParent {e : PatchError} (h : makeParent t path = (.error e, u)) : e.IsIo := by
  unfold makeParent at h
  split_ifs at h
  · cases h
  · split at h
    · cases h
    · cases h
      exact ⟨_, _, rfl⟩

theorem isIo_of_replaceFile {e : PatchError} (h : replaceFile t path content = (.error e, u)) : e.IsIo := by
  unfold replaceFile at h
  split at h
  · cases h
    exact ⟨_, _, rfl⟩
  · split at h
    · cases h
      exact ⟨_, _, rfl⟩
    · split at h
      · cases h
        exact ⟨_, _, rfl⟩
      · cases h

theorem isIo_of_writeAtomically {e : PatchError} (h : writeAtomically t path content = (.error e, u)) : e.IsIo := by
  unfold writeAtomically at h
  split_ifs at h
  · cases h
    exact ⟨_, _, rfl⟩
  · split at h
    · rename_i hmade
      cases h
      exact isIo_of_makeParent hmade
    · exact isIo_of_replaceFile h

end Output

/-! ## Patching a file -/

namespace Module

/-- the same bytes from elsewhere cannot be opened for the same reason -/
theorem ofBytes_of_error {b : Bytes} {origin : Text} {cause : OpenError} (h : ofBytes b origin = .error cause)
    (other : Text) : ofBytes b other = .error ⟨other, cause.reason⟩ := by
  unfold ofBytes at h ⊢
  split at h
  · cases h
    rfl
  · split at h
    · cases h
      rfl
    · cases h

theorem ofBytes_of_ok {b : Bytes} {origin : Text} {m : Module} (h : ofBytes b origin = .ok m) (other : Text) :
    ofBytes b other = .ok { m with origin := other } := by
  obtain ⟨rfl, -, himage, hmetadata⟩ := ofBytes_eq_ok_iff.1 h
  exact ofBytes_eq_ok_iff.2 ⟨rfl, rfl, himage, hmetadata⟩

/-- where a module came from plays no part in the plan -/
theorem plan_origin (m : Module) (other type method : Text) :
    { m with origin := other }.plan type method = m.plan type method := rfl

/-- nor in the patch of a buffer of the right size -/
theorem patch_origin {m : Module} (other : Text) {type method : Text} {b : Bytes} (h : b.size = m.bytes.size) :
    { m with origin := other }.patch type method b = m.patch type method b := by
  simp only [patch, plan_origin]
  rw [if_neg (not_not.2 h), if_neg (not_not.2 h)]

/-- a plan fails for what the module holds, not for how it was reached or where it is going -/
theorem kind_of_plan {m : Module} {type method : Text} {e : PatchError} (h : m.plan type method = .error e) :
    ¬ e.IsIo ∧ ∀ cause, e ≠ .notOpened cause := by
  unfold plan at h
  split at h
  · cases h
    exact ⟨nofun, nofun⟩
  · split at h
    · cases h
      exact ⟨nofun, nofun⟩
    · split at h
      · cases h
        exact ⟨nofun, nofun⟩
      · unfold replace at h
        split at h
        · rename_i cause _
          cases h
          cases cause <;> exact ⟨nofun, nofun⟩
        · split_ifs at h
          cases h
          exact ⟨nofun, nofun⟩

end Module

/-- the error as it is for a module that was read from a file -/
def PatchError.openedFrom (path : Text) : PatchError → PatchError
  | .notOpened cause => .notOpened ⟨path, cause.reason⟩
  | e => e

theorem PatchError.isIo_openedFrom {e : PatchError} {path : Text} : (e.openedFrom path).IsIo ↔ e.IsIo := by
  cases e <;> simp [openedFrom, IsIo]

section

variable {t : FileTree} {r : PatchRequest} {b out : Bytes} {e : PatchError} {s : PatchSummary}

theorem patchBytes_eq_error {type method : Text} (h : patchBytes b type method = (.error e, out)) :
    (∃ cause, Module.ofBytes b Module.inMemory = .error cause ∧ e = .notOpened cause) ∨
      ∃ m, Module.ofBytes b Module.inMemory = .ok m ∧ m.plan type method = .error e := by
  unfold patchBytes at h
  split at h
  · rename_i cause hcause
    cases h
    exact .inl ⟨cause, hcause, rfl⟩
  · rename_i m hm
    refine .inr ⟨m, hm, ?_⟩
    unfold Module.patch at h
    rw [if_neg (not_not.2 (by rw [Module.bytes_of_ofBytes hm]))] at h
    split at h
    · rename_i hplan
      cases h
      exact hplan
    · cases h

theorem not_isIo_of_patchBytes {type method : Text} (h : patchBytes b type method = (.error e, out)) : ¬ e.IsIo := by
  rcases patchBytes_eq_error h with ⟨cause, -, rfl⟩ | ⟨m, -, hplan⟩
  · exact nofun
  · exact (Module.kind_of_plan hplan).1

theorem patchFile_of_error (h : t.readFile r.modulePath = .ok b)
    (hb : patchBytes b r.typeName r.methodName = (.error e, out)) :
    patchFile t r = (.error (e.openedFrom r.modulePath), t) := by
  rcases patchBytes_eq_error hb with ⟨cause, hcause, rfl⟩ | ⟨m, hm, hplan⟩
  · simp only [patchFile, Module.openFile, h, Module.ofBytes_of_error hcause, PatchError.openedFrom]
  · have hpatch : { m with origin := r.modulePath }.patch r.typeName r.methodName m.bytes = (.error e, m.bytes) := by
      simp only [Module.patch, Module.plan_origin, hplan]
      rw [if_neg (not_not.2 rfl)]
    have hopened : e.openedFrom r.modulePath = e := by
      cases e with
      | notOpened cause => exact absurd rfl ((Module.kind_of_plan hplan).2 cause)
      | _ => rfl
    simp only [patchFile, Module.openFile, h, Module.ofBytes_of_ok hm, hpatch, hopened]

/-- what a patch of the content gives is written -/
theorem patchFile_of_ok (h : t.readFile r.modulePath = .ok b)
    (hb : patchBytes b r.typeName r.methodName = (.ok s, out)) :
    patchFile t r = ((Output.writeAtomically t r.outputPath out).1.map fun _ => s,
      (Output.writeAtomically t r.outputPath out).2) := by
  obtain ⟨m, replacement, hm, hplan, rfl, rfl⟩ := patchBytes_eq_ok_iff.1 hb
  obtain rfl := Module.bytes_of_ofBytes hm
  have hpatch : { m with origin := r.modulePath }.patch r.typeName r.methodName m.bytes =
      (.ok replacement.summary, replacement.apply m.bytes) :=
    (Module.patch_eq_ok_iff rfl).2 ⟨replacement, hplan, rfl, rfl⟩
  simp only [patchFile, Module.openFile, h, Module.ofBytes_of_ok hm, hpatch]
  split <;> rename_i hwrite <;> rw [hwrite] <;> rfl

/-! ### What is reported after the writing -/

theorem eq_error_of_map {answer : Except PatchError Unit × FileTree} {u : FileTree}
    (h : (answer.1.map fun _ => s, answer.2) = (.error e, u)) : answer = (.error e, u) := by
  rcases answer with ⟨cause | ⟨⟩, after⟩
  · cases h
    rfl
  · cases h

theorem eq_ok_of_map {answer : Except PatchError Unit × FileTree} {u : FileTree} {s' : PatchSummary}
    (h : (answer.1.map fun _ => s, answer.2) = (.ok s', u)) : answer = (.ok (), u) ∧ s' = s := by
  rcases answer with ⟨cause | ⟨⟩, after⟩
  · cases h
  · cases h
    exact ⟨rfl, rfl⟩

/-- a patch fails before anything is written, or it is the writing of some content -/
theorem patchFile_cases (t : FileTree) (r : PatchRequest) :
    (∃ e, ¬ e.IsIo ∧ patchFile t r = (.error e, t)) ∨ ∃ s content, patchFile t r =
      ((Output.writeAtomically t r.outputPath content).1.map fun _ => s,
        (Output.writeAtomically t r.outputPath content).2) := by
  cases hread : t.readFile r.modulePath with
  | error cause =>
    refine .inl ⟨.notOpened ⟨r.modulePath, cause.message⟩, nofun, ?_⟩
    simp only [patchFile, Module.openFile, hread]
  | ok b =>
    rcases hb : patchBytes b r.typeName r.methodName with ⟨e | s, out⟩
    · exact .inl ⟨_, mt PatchError.isIo_openedFrom.1 (not_isIo_of_patchBytes hb), patchFile_of_error hread hb⟩
    · exact .inr ⟨s, out, patchFile_of_ok hread hb⟩

end

/-! ### A small tree -/

namespace Small

/-- the small module, a file `f`, and a directory in the place of its temporary file -/
def disk : FileTree :=
  ((FileTree.empty.putFile [Text.ascii "m"] file).putFile [Text.ascii "f"] #[0]).put [Text.ascii "f.ilweave-tmp"] .dir

theorem readFile_disk : disk.readFile (Text.ascii "m") = .ok file := rfl

theorem disk_direct : disk.Direct := by decide

end Small

end CilPatch
