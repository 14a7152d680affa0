/-
All ways to ask for a patch give the same answer.

A patch is asked for with a module and a buffer, with a buffer alone, with files, or by a caller that passes strings and
reads numbers. `patchFile_agrees` is the main result. It compares the last two with the patch of a buffer, and that one
with the patch of an opened module:

- `PatchedContent` says what a patch of a file has to do with a patch of its content;
- `Foreign.Reports` says how a result is reported as numbers, `Foreign.Passes` how a text is passed.

What a success leaves depends on what stood under the name of the temporary file, which is opened and renamed as it is.
`patchFile_agrees_aside` shows what becomes of a path with a NUL, of two links of one file and of a symbolic link.
-/
import CilPatch.Patch.Foreign
import CilPatch.Proofs.OutputFile

namespace CilPatch

open Files (FileTree Entry Location)

variable {t u : FileTree} {path : Text} {content : Bytes} {e : PatchError} {s : PatchSummary}

/-! ## The output -/

namespace Output

/-- nothing has the name of the temporary file, or a file has it -/
def PlainTemporary (t : FileTree) (path : Text) : Prop := ∀ loc, NamesTemporary t path loc →
  (prepared t path).get? loc = none ∨ ∃ node, (prepared t path).get? loc = some (.file node)

/-- what is written is the file with the name of the output, and the path leads to nothing else; it does lead there if the
name was not that of a symbolic link -/
def Written (t u : FileTree) (path : Text) (content : Bytes) : Prop :=
  ∃ loc node, NamesOutput t path loc ∧ u.get? loc = some (.file node) ∧ u.content node = content ∧
    (∀ e, u.stat path = .ok e → e = .file node) ∧ (¬ (prepared t path).IsLink loc → u.stat path = .ok (.file node))

/-- the path of the temporary file leads nowhere, unless it ends at a NUL, or both paths led to one file already -/
def NoTemporary (t u : FileTree) (path : Text) : Prop :=
  (∀ e, u.stat (temporary path) ≠ .ok e) ∨ 0 ∈ path ∨
    ∃ node, (prepared t path).stat (temporary path) = .ok (.file node) ∧ (prepared t path).stat path = .ok (.file node)

/-- what had the name of the temporary file is the output, and what is written is in the file that the path of the temporary
file led to, unless the output has been put there -/
def EntryMoved (t u : FileTree) (path : Text) (content : Bytes) : Prop :=
  ∃ temp new place, NamesTemporary t path temp ∧ NamesOutput t path new ∧
    u.get? new = (prepared t path).get? temp ∧ (prepared t path).OpensAt (temporary path) place ∧
    (place ≠ new → ∀ node, u.get? place = some (.file node) → u.content node = content)

/-- a success opens the temporary file, writes all of it and renames it -/
theorem exists_written (h : writeAtomically t path content = (.ok (), u)) : namesFile path = true ∧
    ∃ place written, (prepared t path).OpensAt (temporary path) place ∧ (prepared t path).Wrote written place ∧
      (∀ node, written.get? place = some (.file node) → written.content node = content) ∧
        written.renameFile (temporary path) path = .ok u := by
  rcases writeAtomically_cases h with ⟨-, hok, -⟩ | ⟨hname, ⟨hok, -⟩ | hreplace⟩
  · exact absurd rfl hok
  · exact absurd rfl hok
  · rcases replaceFile_cases hreplace with ⟨hok, -⟩ | ⟨place, written, hopens, -, hwrote, ⟨hok, -⟩ | ⟨-, hwhole, hrename⟩⟩
    · exact absurd rfl hok
    · exact absurd rfl hok
    · exact ⟨hname, place, written, hopens, hwrote, hwhole, hrename⟩

/-- a name that is moved onto a name that is not that of a link keeps all ways -/
theorem keepsWays_moved {old new : Location} {e : Entry} (he : t.get? old = some e) (hdir : e ≠ .dir)
    (hlink : ¬ t.IsLink old) (hnewdir : t.get? new ≠ some .dir) (hnewlink : ¬ t.IsLink new) (hold : old ≠ [])
    (hnew : new ≠ []) : t.KeepsWays ((t.erase old).put new e) fun _ => False := by
  have hkept {loc : Location} {other : Entry} (hother : t.get? loc = some other) (h1 : loc ≠ new) (h2 : loc ≠ old) :
      ((t.erase old).put new e).get? loc = some other := by
    rw [FileTree.get?_put_of_ne_nil _ hnew, if_neg h1, FileTree.get?_erase_of_ne_nil _ hold, if_neg h2, hother]
  refine ⟨rfl, fun loc hloc => hkept hloc ?_ ?_, fun loc node target _ hloc => hkept hloc ?_ ?_⟩
  · rintro rfl
    exact hnewdir hloc
  · rintro rfl
    exact hdir (Option.some.inj (he.symm.trans hloc))
  · rintro rfl
    exact hnewlink ⟨node, target, hloc⟩
  · rintro rfl
    exact hlink ⟨node, target, hloc⟩

/-- and adds none if it is that of a file -/
theorem keepsWays_moved_symm {old new : Location} {node : Files.NodeId} (hold : old ≠ []) (hnew : new ≠ []) :
    ((t.erase old).put new (.file node)).KeepsWays t fun _ => False := by
  have hkept {loc : Location} {other : Entry} (hother : ((t.erase old).put new (.file node)).get? loc = some other)
      (hfile : other ≠ .file node) : t.get? loc = some other := by
    rw [FileTree.get?_put_of_ne_nil _ hnew, FileTree.get?_erase_of_ne_nil _ hold] at hother
    split_ifs at hother
    · exact absurd (Option.some.inj hother).symm hfile
    · exact hother
  exact ⟨rfl, fun loc hloc => hkept hloc nofun, fun loc node target _ hloc => hkept hloc nofun⟩

/-- a path that ends in the name of a file leads nowhere else -/
theorem eq_of_stat {loc : Location} {node : Files.NodeId} {e : Entry} (hname : t.Names path loc)
    (hnode : t.get? loc = some (.file node)) (h : t.stat path = .ok e) : e = .file node := by
  rw [hname.stat hnode] at h
  exact (Except.ok.inj h).symm

section

variable {old new : Location} {node : Files.NodeId} {written : FileTree}

/-- when both names were those of one file, nothing has moved -/
theorem written_of_same (hname : namesFile path = true) (hold : NamesTemporary t path old) (hnew : NamesOutput t path new)
    (hwrote : (prepared t path).Wrote u old) (hnode : u.get? old = some (.file node)) (hcontent : u.content node = content)
    (hsame : u.get? new = some (.file node)) : Written t u path content ∧ NoTemporary t u path := by
  have hthere : u.Names path new := hnew.of_keepsWays hwrote.keepsWays
  refine ⟨⟨new, node, hnew, hsame, hcontent, fun e => eq_of_stat hthere hsame, fun _ => hthere.stat hsame⟩, ?_⟩
  by_cases h0 : 0 ∈ path
  · exact .inr (.inl h0)
  · -- the output has another name, so both files were there
    have hplace : new ≠ old := names_ne hname h0 hnew hold
    have hother := (hwrote.elsewhere new hplace).symm.trans hsame
    rcases hwrote.get?_cases old with hkept | ⟨-, -, node', hnode', hfresh⟩
    · exact .inr (.inr ⟨node, hold.stat (hkept.symm.trans hnode), hnew.stat hother⟩)
    · cases hnode.symm.trans hnode'
      exact absurd hother (hfresh new)

/-- a file that is moved has the name of the output, and the other name is gone -/
theorem written_of_moved (hold : NamesTemporary t path old) (hnew : NamesOutput t path new)
    (hwrote : (prepared t path).Wrote written old) (hnode : written.get? old = some (.file node))
    (hcontent : written.content node = content) (hne : written.get? new ≠ some (.file node))
    (hnewdir : written.get? new ≠ some .dir) :
    Written t ((written.erase old).put new (.file node)) path content ∧
      NoTemporary t ((written.erase old).put new (.file node)) path := by
  have hold' : written.Names (temporary path) old := hold.of_keepsWays hwrote.keepsWays
  have hnew' : written.Names path new := hnew.of_keepsWays hwrote.keepsWays
  have hget := FileTree.get?_put_of_ne_nil (written.erase old) hnew'.ne_nil (.file node)
  have hthere : ((written.erase old).put new (.file node)).get? new = some (.file node) := by rw [hget, if_pos rfl]
  have hplace : old ≠ new := by
    rintro rfl
    exact hne hnode
  have hgone : ((written.erase old).put new (.file node)).get? old = none := by
    rw [hget, if_neg hplace, FileTree.get?_erase_of_ne_nil written hold'.ne_nil, if_pos rfl]
  have hback : ((written.erase old).put new (.file node)).KeepsWays written fun _ => False :=
    keepsWays_moved_symm hold'.ne_nil hnew'.ne_nil
  refine ⟨⟨new, node, hnew, hthere, hcontent, fun e hstat => ?_, fun hlink => ?_⟩, .inl fun e hstat => ?_⟩
  · obtain ⟨loc, hloc, -⟩ := FileTree.stat_eq_ok_iff.1 hstat
    exact eq_of_stat (hnew'.of_resolve hback hloc) hthere hstat
  · have hlink' : ¬ written.IsLink new := by
      rintro ⟨link, target, hget⟩
      exact hlink ⟨link, target, hwrote.keepsWays_symm.links _ _ _ id hget⟩
    have hways := keepsWays_moved hnode nofun (FileTree.not_isLink_of_get? hnode nofun) hnewdir hlink' hold'.ne_nil
      hnew'.ne_nil
    exact (hnew'.of_keepsWays hways).stat hthere
  · obtain ⟨loc, hloc, hentry⟩ := FileTree.stat_eq_ok_iff.1 hstat
    have hnames := hold'.of_resolve hback hloc
    obtain rfl := hnames.eq_of_resolve (FileTree.not_isLink_of_none hgone) hloc
    rw [hgone] at hentry
    cases hentry

end

/-- what was written is the output, and the temporary file is gone -/
theorem written_of_ok (h : writeAtomically t path content = (.ok (), u)) (hplain : PlainTemporary t path) :
    Written t u path content ∧ NoTemporary t u path := by
  obtain ⟨hname, place, written, hopens, hwrote, hwhole, hrename⟩ := exists_written h
  obtain ⟨old, new, e, hold, hnew, he, -, hmoved⟩ := FileTree.renameFile_eq_ok hrename
  have hold' : NamesTemporary t path old := hold.of_keepsWays hwrote.keepsWays_symm
  have hnew' : NamesOutput t path new := hnew.of_keepsWays hwrote.keepsWays_symm
  -- the name of the temporary file is the place where it was opened
  have hnotlink : ¬ (prepared t path).IsLink old := by
    rcases hplain old hold' with hnone | ⟨node, hnode⟩
    · exact FileTree.not_isLink_of_none hnone
    · exact FileTree.not_isLink_of_get? hnode nofun
  obtain rfl := hold'.eq_of_opensAt hnotlink hopens
  obtain ⟨node, hnode⟩ : ∃ node, written.get? place = some (.file node) := by
    rcases hplain place hold' with hnone | ⟨node, hnode⟩
    · obtain ⟨node, hnode, -⟩ := hwrote.created hnone
      exact ⟨node, hnode⟩
    · exact ⟨node, hwrote.get?_eq_some hnode⟩
  rw [hnode] at he
  cases he
  rcases hmoved with ⟨hsame, rfl⟩ | ⟨hne, hnewdir, rfl⟩
  · exact written_of_same hname hold' hnew' hwrote hnode (hwhole node hnode) hsame
  · exact written_of_moved hold' hnew' hwrote hnode (hwhole node hnode) hne hnewdir

/-- what had the name is moved as it is, a link or a device too -/
theorem entryMoved_of_ok (h : writeAtomically t path content = (.ok (), u)) {temp : Location} {e : Entry}
    (htemp : NamesTemporary t path temp) (hthere : (prepared t path).get? temp = some e) :
    EntryMoved t u path content := by
  obtain ⟨-, place, written, hopens, hwrote, hwhole, hrename⟩ := exists_written h
  obtain ⟨old, new, e', hold, hnew, he', -, hmoved⟩ := FileTree.renameFile_eq_ok hrename
  have hold' : NamesTemporary t path old := hold.of_keepsWays hwrote.keepsWays_symm
  have hnew' : NamesOutput t path new := hnew.of_keepsWays hwrote.keepsWays_symm
  obtain rfl := hold'.unique htemp
  obtain rfl : e = e' := Option.some.inj ((hwrote.get?_eq_some hthere).symm.trans he')
  refine ⟨old, new, place, hold', hnew', ?_, hopens, fun hne node hnode => ?_⟩
  · rcases hmoved with ⟨hsame, rfl⟩ | ⟨-, -, rfl⟩
    · exact hsame.trans hthere.symm
    · rw [FileTree.get?_put_of_ne_nil _ hnew.ne_nil, if_pos rfl, hthere]
  · rcases hmoved with ⟨-, rfl⟩ | ⟨-, -, rfl⟩
    · exact hwhole node hnode
    · rw [FileTree.get?_put_of_ne_nil _ hnew.ne_nil, if_neg hne, FileTree.get?_erase_of_ne_nil _ hold.ne_nil] at hnode
      split_ifs at hnode
      exact hwhole node hnode

end Output

/-! ## Files and buffers -/

/-- what a patch of a file is, for a file that holds the bytes `b` -/
structure PatchedContent (t : FileTree) (r : PatchRequest) (b : Bytes) : Prop where
  /-- it succeeds only as a patch of the bytes does, and the result of that is written -/
  success : ∀ s u, patchFile t r = (.ok s, u) → ∃ out, patchBytes b r.typeName r.methodName = (.ok s, out) ∧
    (Output.PlainTemporary t r.outputPath → Output.Written t u r.outputPath out ∧ Output.NoTemporary t u r.outputPath) ∧
    ∀ temp e, Output.NamesTemporary t r.outputPath temp → (Output.prepared t r.outputPath).get? temp = some e →
      Output.EntryMoved t u r.outputPath out
  /-- it fails as the patch of the bytes does, except that a module that cannot be opened has another path -/
  failure : ∀ e out, patchBytes b r.typeName r.methodName = (.error e, out) →
    patchFile t r = (.error (e.openedFrom r.modulePath), t)
  /-- what else can go wrong is the writing -/
  unwritten : ∀ s out e u, patchBytes b r.typeName r.methodName = (.ok s, out) → patchFile t r = (.error e, u) → e.IsIo
  /-- wherever the bytes came from, patching them is opening them and patching a copy -/
  opened : ∀ origin m, Module.ofBytes b origin = .ok m →
    patchBytes b r.typeName r.methodName = m.patch r.typeName r.methodName b
  /-- or failing to open them -/
  unopened : ∀ origin cause, Module.ofBytes b origin = .error cause →
    patchBytes b r.typeName r.methodName = (.error (.notOpened ⟨Module.inMemory, cause.reason⟩), b)

theorem patchedContent_of_readFile {r : PatchRequest} {b : Bytes} (h : t.readFile r.modulePath = .ok b) :
    PatchedContent t r b where
  success := by
    intro s u hpatch
    rcases hb : patchBytes b r.typeName r.methodName with ⟨error | summary, out⟩
    · rw [patchFile_of_error h hb] at hpatch
      cases hpatch
    · rw [patchFile_of_ok h hb] at hpatch
      obtain ⟨hwrite, rfl⟩ := eq_ok_of_map hpatch
      exact ⟨out, rfl, Output.written_of_ok hwrite, fun _ _ => Output.entryMoved_of_ok hwrite⟩
  failure _ _ := patchFile_of_error h
  unwritten := by
    intro s out e u hb hpatch
    rw [patchFile_of_ok h hb] at hpatch
    exact Output.isIo_of_writeAtomically (eq_error_of_map hpatch)
  opened := by
    intro origin m hm
    have hsize : b.size = m.bytes.size := by rw [Module.bytes_of_ofBytes hm]
    rw [patchBytes_of_ofBytes (Module.ofBytes_of_ok hm Module.inMemory), Module.patch_origin _ hsize]
  unopened := by
    intro origin cause hcause
    simp only [patchBytes, Module.ofBytes_of_error hcause]

/-! ## Strings and numbers -/

namespace Foreign

/-- the argument passes the text: one that is missing passes nothing, and others end at their first NUL -/
inductive Passes : Option Text → Text → Prop
  | missing : Passes none []
  | whole {text : Text} : 0 ∉ text → Passes (some text) text
  | ended {text rest : Text} : 0 ∉ text → Passes (some (text ++ 0 :: rest)) text

/-- the arguments pass a request -/
structure Asks (modulePath outputPath typeName methodName : Option Text) (r : PatchRequest) : Prop where
  modulePath : Passes modulePath r.modulePath
  outputPath : Passes outputPath r.outputPath
  typeName : Passes typeName r.typeName
  methodName : Passes methodName r.methodName

theorem readString_of_passes {arg : Option Text} {text : Text} (h : Passes arg text) : readString arg = text := by
  cases h with
  | missing => rfl
  | whole h0 => exact Files.untilNul_of_notMem h0
  | @ended _ rest h0 =>
    change Text.untilNul (text ++ 0 :: rest) = text
    rw [Text.untilNul_append h0, Text.untilNul, List.takeWhile_cons]
    simp

theorem request_of_asks {modulePath outputPath typeName methodName : Option Text} {r : PatchRequest}
    (h : Asks modulePath outputPath typeName methodName r) : request modulePath outputPath typeName methodName = r := by
  rw [request, readString_of_passes h.modulePath, readString_of_passes h.outputPath, readString_of_passes h.typeName,
    readString_of_passes h.methodName]

/-- the kinds of errors -/
inductive Kind where
  | typeNotFound
  | methodNotFound
  | noBody
  | offsetMapping
  | unsupportedBody
  | unsupportedReturn
  | bodyTooLarge
  | notOpened
  | io
  deriving DecidableEq, Repr

/-- in the order of their numbers, the first of which is one -/
def Kind.all : List Kind :=
  [.typeNotFound, .methodNotFound, .noBody, .offsetMapping, .unsupportedBody, .unsupportedReturn, .bodyTooLarge,
    .notOpened, .io]

def kind : PatchError → Kind
  | .typeNotFound _ => .typeNotFound
  | .methodNotFound _ _ => .methodNotFound
  | .notLocated (.noBody _) => .noBody
  | .notLocated (.unmapped _) => .offsetMapping
  | .notLocated (.unsupportedBody _ _ _) => .unsupportedBody
  | .unsupportedReturn _ => .unsupportedReturn
  | .bodyTooLarge _ _ _ => .bodyTooLarge
  | .notOpened _ => .notOpened
  | .io _ _ => .io

/-- the answer reports the result -/
structure Reports (a : Answer) (result : Except PatchError PatchSummary) : Prop where
  /-- zero stands for success and for nothing else -/
  code : a.code = 0 ↔ ∃ s, result = .ok s
  info : ∀ s, result = .ok s → a.value = .ok ⟨s.fileOffset, s.span, s.encodedSize⟩
  error : ∀ e, result = .error e → Kind.all[a.code - 1]? = some (kind e) ∧ a.value = .error e
  /-- a buffer that has room for it receives the message of the error, and a NUL behind it -/
  message : ∀ e, a.value = .error e → ∀ buffer size, e.message.length < size → size ≤ buffer.size →
    ∃ after, formatError e (some buffer) size = some after ∧ after.Holds 0 (e.message ++ [0])

theorem holds_fill {buffer : Bytes} {size : Nat} {message : Text} (hlt : message.length < size)
    (hle : size ≤ buffer.size) : (fill buffer size message).Holds 0 (message ++ [0]) := by
  have hwhole : message.take (size - 1) = message := List.take_of_length_le (by omega)
  rw [fill, if_neg (by omega), hwhole]
  intro i hi
  have hfits : 0 + (message ++ [0]).length ≤ buffer.size := by
    rw [List.length_append, List.length_singleton]
    omega
  rw [Bytes.getElem?_write buffer 0 _ hfits, if_pos (by omega)]
  simp

theorem reports_answer (result : Except PatchError PatchSummary) : Reports (answer result) result where
  code := by
    cases result with
    | ok s => exact ⟨fun _ => ⟨s, rfl⟩, fun _ => rfl⟩
    | error e =>
      refine ⟨fun h => ?_, fun ⟨s, hs⟩ => nomatch hs⟩
      cases e with
      | notLocated cause => cases cause <;> cases h
      | _ => cases h
  info := by
    rintro s rfl
    rfl
  error := by
    rintro e rfl
    refine ⟨?_, rfl⟩
    cases e with
    | notLocated cause => cases cause <;> rfl
    | _ => rfl
  message := by
    intro e _ buffer size hlt hle
    exact ⟨fill buffer size e.message, rfl, holds_fill hlt hle⟩

end Foreign

/-! ## Main result -/

/-- **All ways to ask for a patch agree.** A patch of a file is the patch of its content with the result written, a patch
of a buffer is that of the opened module, and strings and numbers pass on the request and the result of a patch of a
file. -/
theorem patchFile_agrees (t : FileTree) (r : PatchRequest) :
    (∀ b, t.readFile r.modulePath = .ok b → PatchedContent t r b) ∧
    ∀ modulePath outputPath typeName methodName, Foreign.Asks modulePath outputPath typeName methodName r →
      Foreign.Reports (Foreign.patch t modulePath outputPath typeName methodName).1 (patchFile t r).1 ∧
        (Foreign.patch t modulePath outputPath typeName methodName).2 = (patchFile t r).2 := by
  refine ⟨fun b => patchedContent_of_readFile, fun modulePath outputPath typeName methodName hasks => ?_⟩
  rw [Foreign.patch, Foreign.request_of_asks hasks]
  exact ⟨Foreign.reports_answer _, rfl⟩

namespace Small

/-- the output is a new file -/
def fresh : PatchRequest := ⟨Text.ascii "m", Text.ascii "g", Text.ascii "C", Text.ascii "F"⟩

/-- a patch of `F` in `m` whose writing succeeds -/
theorem patchFile_of_written {t : FileTree} {output : Text} {v : Bytes → FileTree}
    (hmodule : t.readFile (Text.ascii "m") = .ok file)
    (hwrite : ∀ content, Output.writeAtomically t output content = (.ok (), v content)) :
    patchFile t ⟨Text.ascii "m", output, Text.ascii "C", Text.ascii "F"⟩ =
      (.ok patchF.1.summary, v (patchF.1.apply file)) := by
  rw [patchFile_of_ok (r := ⟨Text.ascii "m", output, Text.ascii "C", Text.ascii "F"⟩) hmodule patchBytes_F, hwrite]
  rfl

theorem plainTemporary_fresh : Output.PlainTemporary disk fresh.outputPath := by
  intro loc hname
  have hplace : Output.NamesTemporary disk fresh.outputPath [Text.ascii "g.ilweave-tmp"] :=
    ⟨.named [] (Text.ascii "g.ilweave-tmp") false, rfl, ⟨_, _, by decide, rfl⟩, rfl⟩
  rw [hname.unique hplace]
  exact .inl rfl

end Small

/-- a new file is written, also for a caller that passes strings; one that passes nothing is told that no module could be
opened -/
theorem patchFile_agrees_small : ∃ u, patchFile Small.disk Small.fresh = (.ok Small.patchF.1.summary, u) ∧
    Small.disk.readFile (Text.ascii "m") = .ok Small.file ∧ Output.PlainTemporary Small.disk (Text.ascii "g") ∧
    Output.Written Small.disk u (Text.ascii "g") (Small.patchF.1.apply Small.file) ∧
    Output.NoTemporary Small.disk u (Text.ascii "g") ∧
    Foreign.Reports (Foreign.patch Small.disk (some (Text.ascii "m" ++ 0 :: Text.ascii "n")) (some (Text.ascii "g"))
      (some (Text.ascii "C")) (some (Text.ascii "F"))).1 (.ok Small.patchF.1.summary) ∧
    Foreign.Kind.all[(Foreign.patch Small.disk none none none none).1.code - 1]? = some .notOpened := by
  have hu : patchFile Small.disk Small.fresh = (.ok Small.patchF.1.summary, _) :=
    Small.patchFile_of_written Small.readFile_disk fun _ => rfl
  obtain ⟨hcontent, hforeign⟩ := patchFile_agrees Small.disk Small.fresh
  obtain ⟨out, hout, hwritten, -⟩ := (hcontent Small.file Small.readFile_disk).success _ _ hu
  have hsame : Small.patchF.1.apply Small.file = out := (Prod.mk.inj (Small.patchBytes_F.symm.trans hout)).2
  obtain ⟨hstat, hgone⟩ := hwritten Small.plainTemporary_fresh
  obtain ⟨hreports, -⟩ := hforeign (some (Text.ascii "m" ++ 0 :: Text.ascii "n")) (some (Text.ascii "g"))
    (some (Text.ascii "C")) (some (Text.ascii "F"))
    ⟨.ended (by decide), .whole (by decide), .whole (by decide), .whole (by decide)⟩
  obtain ⟨hnothing, -⟩ := (patchFile_agrees Small.disk ⟨[], [], [], []⟩).2 none none none none
    ⟨.missing, .missing, .missing, .missing⟩
  rw [← hsame] at hstat
  rw [hu] at hreports
  exact ⟨_, hu, Small.readFile_disk, Small.plainTemporary_fresh, hstat, hgone, hreports, (hnothing.error _ rfl).1⟩

namespace Small

/-- an output path with a NUL -/
def cut : Text := Text.ascii "g" ++ 0 :: Text.ascii "h"

/-- the small module, and a file with two names, one for an output and one for its temporary file -/
def linked : FileTree where
  entries := [([Text.ascii "m"], .file 1), ([Text.ascii "o"], .file 2), ([Text.ascii "o.ilweave-tmp"], .file 2)]
  content node := if node = 1 then file else #[0]
  rules := .free

/-- the same with a symbolic link to the output -/
def looping : FileTree := { linked with
  entries := [([Text.ascii "m"], .file 1), ([Text.ascii "o"], .file 2),
    ([Text.ascii "o.ilweave-tmp"], .link 3 (Text.ascii "o"))] }

end Small

/-- what a success can leave: the temporary file, for a path with a NUL and for a file that had both names, and an output
path that leads nowhere, when a link to the output had the name of the temporary file -/
theorem patchFile_agrees_aside :
    (∃ s u node, patchFile Small.disk ⟨Text.ascii "m", Small.cut, Text.ascii "C", Text.ascii "F"⟩ = (.ok s, u) ∧
      Small.disk.stat (Output.temporary Small.cut) = .error .noEntry ∧
      u.stat (Output.temporary Small.cut) = .ok (.file node)) ∧
    (∃ s u, patchFile Small.linked ⟨Text.ascii "m", Text.ascii "o", Text.ascii "C", Text.ascii "F"⟩ = (.ok s, u) ∧
      u.stat (Text.ascii "o.ilweave-tmp") = .ok (.file 2)) ∧
    ∃ s u, patchFile Small.looping ⟨Text.ascii "m", Text.ascii "o", Text.ascii "C", Text.ascii "F"⟩ = (.ok s, u) ∧
      u.stat (Text.ascii "o") = .error .tooManyLinks := by
  refine ⟨⟨_, _, _, Small.patchFile_of_written Small.readFile_disk fun _ => rfl, rfl, rfl⟩,
    ⟨_, _, Small.patchFile_of_written rfl fun _ => rfl, rfl⟩,
    _, _, Small.patchFile_of_written rfl fun _ => rfl, rfl⟩

end CilPatch
