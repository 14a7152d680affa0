/-
What each operation changes in a file tree.

- `openFile_eq_ok`, `Wrote`: writing changes one file, which may be new;
- `removeFile_cases`, `renameFile_eq_ok`: removing and renaming change names and no content;
- `grown_makeDirectories`: making directories adds directories and nothing else, also when it stops halfway;
- `stat_of_direct`: in a tree whose links do not step up, a path that does not either cannot lead through them to
  anything that was there before.
-/
import Mathlib.Data.List.MinMax
import CilPatch.Proofs.Resolution

namespace CilPatch.Files.FileTree

variable {t u v : FileTree} {path : Text} {loc : Location} {node : NodeId} {e : Entry}

/-! ## Updates -/

@[simp] theorem get?_nil (t : FileTree) : t.get? [] = some .dir := rfl

theorem get?_put_of_ne_nil (t : FileTree) (h : loc ≠ []) (e : Entry) (other : Location) :
    (t.put loc e).get? other = if other = loc then some e else t.get? other := by
  by_cases ho : other = []
  · rw [ho, if_neg (Ne.symm h), get?_nil, get?_nil]
  · exact get?_put t loc e other ho

theorem get?_erase_of_ne_nil (t : FileTree) (h : loc ≠ []) (other : Location) :
    (t.erase loc).get? other = if other = loc then none else t.get? other := by
  by_cases ho : other = []
  · rw [ho, if_neg (Ne.symm h), get?_nil, get?_nil]
  · exact get?_erase t loc other ho

theorem mem_entries_of_get? (h : t.get? loc = some e) (hne : loc ≠ []) : (loc, e) ∈ t.entries := by
  rw [get?, if_neg hne] at h
  obtain ⟨x, hx, rfl⟩ := Option.map_eq_some_iff.1 h
  have hloc : x.1 = loc := by simpa using List.find?_some hx
  rw [← hloc]
  exact List.mem_of_find?_eq_some hx

/-- the node of a new file is that of no other -/
theorem ne_freshNode (h : t.get? loc = some (.file node)) : node ≠ t.freshNode := by
  have hne : loc ≠ [] := by
    rintro rfl
    cases h
  have hmem : node ∈ t.entries.filterMap fun e => e.2.node? :=
    List.mem_filterMap.2 ⟨_, mem_entries_of_get? h hne, rfl⟩
  have hle : node ≤ (t.entries.filterMap fun e => e.2.node?).foldr max 0 := List.le_max_of_le hmem le_rfl
  exact (Nat.lt_succ_of_le hle).ne

/-! ## Reading and writing -/

theorem readFile_of_resolve (hresolve : t.resolve path = .ok loc) (hnode : t.get? loc = some (.file node))
    (hgranted : t.rules.refuses .read loc = none) (hwhole : t.rules.readFails loc = false) :
    t.readFile path = .ok (t.content node) := by
  simp [readFile, hresolve, hnode, grant, hgranted, hwhole]

/-- the second tree is the first one after writing to the file at a location -/
structure Wrote (t u : FileTree) (loc : Location) : Prop where
  rules : u.rules = t.rules
  elsewhere : ∀ other, other ≠ loc → u.get? other = t.get? other
  there : ∀ e, t.get? loc = some e → u.get? loc = some e
  /-- a new file is no link of another one -/
  created : t.get? loc = none → ∃ node, u.get? loc = some (.file node) ∧ ∀ other, t.get? other ≠ some (.file node)
  content : ∀ other node, t.get? other = some (.file node) → t.get? loc ≠ some (.file node) →
    u.content node = t.content node

namespace Wrote

theorem get?_cases (h : t.Wrote u loc) (other : Location) : u.get? other = t.get? other ∨ other = loc ∧
    t.get? loc = none ∧ ∃ node, u.get? loc = some (.file node) ∧ ∀ other, t.get? other ≠ some (.file node) := by
  by_cases hother : other = loc
  · subst hother
    cases hthere : t.get? other with
    | none => exact .inr ⟨rfl, rfl, h.created hthere⟩
    | some e => exact .inl (h.there e hthere)
  · exact .inl (h.elsewhere other hother)

theorem get?_eq_some {other : Location} (h : t.Wrote u loc) (he : t.get? other = some e) : u.get? other = some e := by
  rcases h.get?_cases other with hsame | ⟨rfl, hnone, -⟩
  · exact hsame.trans he
  · rw [hnone] at he
    cases he

/-- writing changes nothing about where paths lead -/
theorem keepsWays (h : t.Wrote u loc) : t.KeepsWays u fun _ => False :=
  ⟨h.rules, fun _ hdir => h.get?_eq_some hdir, fun _ _ _ _ hlink => h.get?_eq_some hlink⟩

theorem keepsWays_symm (h : t.Wrote u loc) : u.KeepsWays t fun _ => False := by
  have hold (other : Location) (e : Entry) (he : u.get? other = some e) (hfile : ∀ node, e ≠ .file node) :
      t.get? other = some e := by
    rcases h.get?_cases other with hsame | ⟨rfl, -, node, hnew, -⟩
    · exact hsame.symm.trans he
    · rw [hnew] at he
      cases he
      exact absurd rfl (hfile node)
  exact ⟨h.rules.symm, fun other hdir => hold other .dir hdir nofun,
    fun other node target _ hlink => hold other (.link node target) hlink nofun⟩

end Wrote

theorem wrote_putFile (hne : loc ≠ []) (hnone : t.get? loc = none) (bytes : Bytes) :
    t.Wrote ((t.putFile loc #[]).setContent t.freshNode bytes) loc := by
  have hget := get?_put_of_ne_nil t hne (.file t.freshNode)
  refine ⟨rfl, fun other hother => ?_, fun e he => ?_, fun _ => ⟨t.freshNode, ?_, fun other h => ?_⟩,
    fun other node hnode _ => ?_⟩
  · exact (hget other).trans (if_neg hother)
  · rw [hnone] at he
    cases he
  · exact (hget loc).trans (if_pos rfl)
  · exact ne_freshNode h rfl
  · have hold := ne_freshNode hnode
    exact (if_neg hold).trans (if_neg hold)

theorem wrote_setContent (hnode : t.get? loc = some (.file node)) (first bytes : Bytes) :
    t.Wrote ((t.setContent node first).setContent node bytes) loc := by
  refine ⟨rfl, fun _ _ => rfl, fun _ he => he, fun hnone => ?_, fun other old _ hne => ?_⟩
  · rw [hnode] at hnone
    cases hnone
  · have hold : old ≠ node := by
      rintro rfl
      exact hne hnode
    exact (if_neg hold).trans (if_neg hold)

/-- what is written to something that is no file goes elsewhere -/
theorem wrote_self (h : t.get? loc ≠ none) : t.Wrote t loc :=
  ⟨rfl, fun _ _ => rfl, fun _ h => h, fun hnone => absurd hnone h, fun _ _ _ _ => rfl⟩

theorem storeFile_of_not_file (h : ∀ node, t.get? loc ≠ some (.file node)) (bytes : Bytes) :
    t.storeFile loc bytes = t := by
  unfold storeFile
  split
  · rename_i node hnode
    exact absurd hnode (h node)
  · rfl

/-- opening a file and writing some bytes to it -/
theorem openFile_eq_ok {opened : FileTree} (h : t.openFile path = .ok (loc, opened)) :
    t.OpensAt path loc ∧ t.get? loc ≠ some .dir ∧ ∀ bytes, t.Wrote (opened.storeFile loc bytes) loc ∧
      ∀ node, (opened.storeFile loc bytes).get? loc = some (.file node) →
        (opened.storeFile loc bytes).content node = bytes := by
  obtain ⟨x, hlookup, h⟩ := bind_eq_ok_iff.1 h
  cases x with
  | special dir => cases h
  | named dir name slashed =>
    dsimp only at h
    split_ifs at h with hslashed hlength
    have hslashed : slashed = false := by simpa using hslashed
    subst hslashed
    have hopens : t.OpensAt path (dir ++ [name]) := ⟨_, hlookup, ⟨dir, name, not_lt.1 hlength, rfl⟩, rfl⟩
    split at h
    · rename_i hnone
      obtain ⟨⟨⟩, -, h⟩ := bind_eq_ok_iff.1 h
      cases h
      have hget : (t.putFile (dir ++ [name]) #[]).get? (dir ++ [name]) = some (.file t.freshNode) :=
        (get?_put_of_ne_nil t hopens.ne_nil _ _).trans (if_pos rfl)
      refine ⟨hopens, by rw [hnone]; exact nofun, fun bytes => ?_⟩
      simp only [storeFile, hget]
      refine ⟨wrote_putFile hopens.ne_nil hnone bytes, fun node hnode => ?_⟩
      cases hget.symm.trans hnode
      exact if_pos rfl
    · cases h
    · rename_i node hnode
      obtain ⟨⟨⟩, -, h⟩ := bind_eq_ok_iff.1 h
      cases h
      have hget : (t.setContent node #[]).get? (dir ++ [name]) = some (.file node) := hnode
      refine ⟨hopens, by rw [hnode]; exact nofun, fun bytes => ?_⟩
      simp only [storeFile, hget]
      refine ⟨wrote_setContent hnode #[] bytes, fun other hother => ?_⟩
      cases hget.symm.trans hother
      exact if_pos rfl
    · rename_i e hdir hfile he
      obtain ⟨⟨⟩, -, h⟩ := bind_eq_ok_iff.1 h
      cases h
      have hnotfile (node : NodeId) : t.get? (dir ++ [name]) ≠ some (.file node) :=
        fun h => hfile node (Option.some.inj (he.symm.trans h))
      refine ⟨hopens, fun h => hdir (Option.some.inj (he.symm.trans h)), fun bytes => ?_⟩
      rw [storeFile_of_not_file hnotfile]
      exact ⟨wrote_self (by rw [he]; simp), fun node hnode => absurd hnode (hnotfile node)⟩

theorem fillFile_eq {answer : Except FileError Unit} {bytes : Bytes} (h : t.fillFile loc bytes = (answer, u)) :
    ∃ written, u = t.storeFile loc written ∧ (answer = .ok () → written = bytes) := by
  unfold fillFile at h
  split at h
  · cases h
    exact ⟨_, rfl, nofun⟩
  · cases h
    exact ⟨bytes, rfl, fun _ => rfl⟩

/-! ## Names -/

/-- the name of an entry that is not a directory can be taken away, if that is not refused -/
theorem removeFile_of_names (h : t.Names path loc) (he : t.get? loc = some e) (hdir : e ≠ .dir)
    (hgranted : t.rules.refuses .remove loc = none) : t.removeFile path = t.erase loc := by
  obtain ⟨_, hlookup, ⟨dir, name, hlength, rfl⟩, rfl⟩ := h
  simp only [Target.location] at he hgranted ⊢
  simp only [removeFile, hlookup, he, if_neg (not_lt.2 hlength)]
  cases e with
  | dir => exact absurd rfl hdir
  | _ => exact if_pos hgranted

theorem removeFile_cases (t : FileTree) (path : Text) : t.removeFile path = t ∨ ∃ loc e, t.Names path loc ∧
    t.get? loc = some e ∧ e ≠ .dir ∧ t.removeFile path = t.erase loc := by
  unfold removeFile
  split
  · rename_i dir name hlookup
    split
    · exact .inl rfl
    · rename_i hlength
      split
      · exact .inl rfl
      · exact .inl rfl
      · rename_i e hdir he
        split_ifs
        · exact .inr ⟨_, e, ⟨_, hlookup, ⟨dir, name, not_lt.1 hlength, rfl⟩, rfl⟩, he, hdir, rfl⟩
        · exact .inl rfl
  · exact .inl rfl

/-- a name is moved to another place, or both places had the same entry -/
theorem renameFile_eq_ok {source target : Text} (h : t.renameFile source target = .ok u) :
    ∃ old new e, t.Names source old ∧ t.Names target new ∧ t.get? old = some e ∧ e ≠ .dir ∧
      (t.get? new = some e ∧ u = t ∨
        t.get? new ≠ some e ∧ t.get? new ≠ some .dir ∧ u = (t.erase old).put new e) := by
  obtain ⟨x, hsource, hthen⟩ := bind_eq_ok_iff.1 h
  obtain ⟨y, htarget, hmove⟩ := bind_eq_ok_iff.1 hthen
  cases x with
  | special dir => cases hmove
  | named oldDir oldName oldSlashed =>
    cases y with
    | special dir => cases hmove
    | named newDir newName newSlashed =>
      dsimp only at hmove
      split at hmove
      · cases hmove
      · rename_i hold
        split at hmove
        · cases hmove
        · cases hmove
        · rename_i e hdir he
          split at hmove
          · cases hmove
          · rename_i hnew
            split at hmove
            · cases hmove
            · rename_i hslashed
              obtain ⟨rfl, rfl⟩ : oldSlashed = false ∧ newSlashed = false := by simpa using hslashed
              refine ⟨_, _, e, ⟨_, hsource, ⟨oldDir, oldName, not_lt.1 hold, rfl⟩, rfl⟩,
                ⟨_, htarget, ⟨newDir, newName, not_lt.1 hnew, rfl⟩, rfl⟩, he, hdir, ?_⟩
              split at hmove
              · rename_i hsame
                exact .inl ⟨hsame, (Except.ok.inj hmove).symm⟩
              · rename_i hsame
                obtain ⟨⟨⟩, -, hgranted⟩ := bind_eq_ok_iff.1 hmove
                obtain ⟨⟨⟩, -, hlast⟩ := bind_eq_ok_iff.1 hgranted
                split_ifs at hlast with hnewdir
                exact .inr ⟨hsame, hnewdir, (Except.ok.inj hlast).symm⟩

theorem makeDirectory_eq_ok (h : t.makeDirectory path = .ok u) :
    ∃ loc, loc ≠ [] ∧ t.get? loc = none ∧ u = t.put loc .dir := by
  obtain ⟨x, -, h⟩ := bind_eq_ok_iff.1 h
  cases x with
  | special dir => cases h
  | named dir name slashed =>
    dsimp only at h
    split_ifs at h with hlength hthere
    obtain ⟨⟨⟩, -, h⟩ := bind_eq_ok_iff.1 h
    cases h
    exact ⟨dir ++ [name], concat_ne_nil, not_not.1 hthere, rfl⟩

/-! ## Making directories -/

/-- the second tree is the first one with directories in places where nothing was -/
structure Grown (t u : FileTree) : Prop where
  rules : u.rules = t.rules
  content : u.content = t.content
  entries : ∀ loc, u.get? loc = t.get? loc ∨ t.get? loc = none ∧ u.get? loc = some .dir

namespace Grown

theorem refl (t : FileTree) : t.Grown t := ⟨rfl, rfl, fun _ => .inl rfl⟩

theorem trans (h1 : t.Grown u) (h2 : u.Grown v) : t.Grown v := by
  refine ⟨h2.rules.trans h1.rules, h2.content.trans h1.content, fun loc => ?_⟩
  rcases h1.entries loc with e1 | ⟨n1, d1⟩
  · rw [← e1]
    exact h2.entries loc
  · rcases h2.entries loc with e2 | ⟨n2, -⟩
    · exact .inr ⟨n1, e2.trans d1⟩
    · rw [d1] at n2
      cases n2

theorem get?_eq_some (h : t.Grown u) (he : t.get? loc = some e) : u.get? loc = some e := by
  rcases h.entries loc with heq | ⟨hnone, -⟩
  · rw [heq, he]
  · rw [hnone] at he
    cases he

/-- only directories are new -/
theorem get?_eq_some_of_ne_dir (h : t.Grown u) (he : u.get? loc = some e) (hdir : e ≠ .dir) : t.get? loc = some e := by
  rcases h.entries loc with heq | ⟨-, hnew⟩
  · rw [← heq, he]
  · exact absurd (Option.some.inj (he.symm.trans hnew)) hdir

theorem keepsWays (h : t.Grown u) : t.KeepsWays u fun _ => False :=
  ⟨h.rules, fun _ hdir => h.get?_eq_some hdir, fun _ _ _ _ hlink => h.get?_eq_some hlink⟩

end Grown

theorem grown_makeDirectory (h : t.makeDirectory path = .ok u) : t.Grown u := by
  obtain ⟨loc, hne, hfree, rfl⟩ := makeDirectory_eq_ok h
  refine ⟨rfl, rfl, fun other => ?_⟩
  rw [get?_put_of_ne_nil t hne]
  split_ifs with hother
  · exact .inr ⟨hother ▸ hfree, rfl⟩
  · exact .inl rfl

/-- also the directories made before a failure are all that is new -/
theorem grown_makeAll (t : FileTree) (paths : List Text) : t.Grown (t.makeAll paths).2 := by
  induction paths generalizing t with
  | nil => exact Grown.refl t
  | cons path paths ih =>
    unfold makeAll
    split
    · rename_i next hnext
      exact (grown_makeDirectory hnext).trans (ih next)
    · split
      · exact ih t
      · exact Grown.refl t

theorem grown_makeDirectories (t : FileTree) (path : Text) : t.Grown (t.makeDirectories path).2 := by
  unfold makeDirectories
  split
  · exact Grown.refl t
  · exact Grown.refl t
  · split
    · split
      · exact grown_makeAll t _
      · exact Grown.refl t
    · exact Grown.refl t

theorem makeDirectories_of_missing {missing : List Text} (hstat : t.stat path = .error .noEntry)
    (hname : fileName path ≠ []) (h : t.missingDirectories path [] = .ok missing) :
    t.makeDirectories path = t.makeAll missing := by
  simp only [makeDirectories, hstat, if_neg hname, h]
  exact if_pos (.inl rfl)

end FileTree

/-! ## Trees in which links do not step up -/

/-- not a link, or one whose target does not step up -/
def Entry.Direct : Entry → Prop
  | link _ target => dotDot ∉ components target
  | _ => True

instance : DecidablePred Entry.Direct
  | .dir => inferInstanceAs (Decidable True)
  | .file _ => inferInstanceAs (Decidable True)
  | .link _ target => inferInstanceAs (Decidable (dotDot ∉ components target))
  | .device _ => inferInstanceAs (Decidable True)

namespace FileTree

variable {t u : FileTree} {last : Bool → Bool} {n : Nat} {dir : Location} {names : List Text} {slashed : Bool}
  {x : Target} {path : Text}

/-- every entry lies in a directory, and no link steps up -/
def Direct (t : FileTree) : Prop := ∀ e ∈ t.entries, t.get? e.1.dropLast = some .dir ∧ e.2.Direct

instance (t : FileTree) : Decidable t.Direct := inferInstanceAs (Decidable (∀ e ∈ t.entries, _))

theorem Direct.get?_above {name : Text} (hd : t.Direct) (h : t.get? (dir ++ [name]) ≠ none) :
    t.get? dir = some .dir := by
  obtain ⟨e, he⟩ := Option.ne_none_iff_exists'.1 h
  simpa using (hd _ (mem_entries_of_get? he concat_ne_nil)).1

theorem Direct.target {loc : Location} {node : NodeId} {target : Text} (hd : t.Direct)
    (h : t.get? loc = some (.link node target)) : dotDot ∉ components target := by
  have hne : loc ≠ [] := by
    rintro rfl
    cases h
  exact (hd _ (mem_entries_of_get? h hne)).2

/-- below a new directory everything is new -/
theorem Walks.get?_of_new (hd : t.Direct) (hg : t.Grown u) (h : u.Walks last n dir names slashed x)
    (hup : dotDot ∉ names) (hnew : t.get? dir = none) : t.get? x.location = none := by
  have hbelow {dir : Location} (hnew : t.get? dir = none) (name : Text) : t.get? (dir ++ [name]) = none := by
    by_contra hthere
    rw [hd.get?_above hthere] at hnew
    cases hnew
  induction h with
  | done => exact hnew
  | stay _ _ _ ih => exact ih (List.not_mem_of_not_mem_cons hup) hnew
  | up _ hname => exact absurd (hname ▸ List.mem_cons_self) hup
  | @stop n dir name => exact hbelow hnew name
  | @down n dir name _ _ _ _ _ _ _ _ _ ih => exact ih (List.not_mem_of_not_mem_cons hup) (hbelow hnew name)
  | @follow n dir name _ _ _ _ _ _ _ _ hlink =>
    have hold := hg.get?_eq_some_of_ne_dir hlink (by simp)
    rw [hbelow hnew name] at hold
    cases hold

/-- a walk that does not step up leads to what was there on a way that was there -/
theorem Walks.of_grown (hd : t.Direct) (hg : t.Grown u) (h : u.Walks last n dir names slashed x)
    (hup : dotDot ∉ names) (hdir : t.get? dir = some .dir) (hthere : t.get? x.location ≠ none) :
    t.Walks last n dir names slashed x := by
  have hgrant (access : Access) (loc : Location) (h : u.grant access loc = .ok ()) : t.grant access loc = .ok () := by
    rwa [grant, hg.rules] at h
  have henter {dir : Location} (hdir : t.get? dir = some .dir) (h : u.enter dir = .ok ()) : t.enter dir = .ok () :=
    enter_eq_ok_iff.2 ⟨hdir, hgrant _ _ (enter_eq_ok_iff.1 h).2⟩
  induction h with
  | done => exact .done
  | stay hent hname _ ih =>
    exact .stay (henter hdir hent) hname (ih (List.not_mem_of_not_mem_cons hup) hdir hthere)
  | up _ hname => exact absurd (hname ▸ List.mem_cons_self) hup
  | stop hent hname hlink =>
    exact .stop (henter hdir hent) hname fun node target hold => hlink node target (hg.get?_eq_some hold)
  | @down n dir name _ _ _ hent hname hlength hnext hne hrest ih =>
    have hup' := List.not_mem_of_not_mem_cons hup
    rcases hg.entries (dir ++ [name]) with hsame | ⟨hnew, -⟩
    · have hold : t.get? (dir ++ [name]) = some .dir := hsame.symm.trans hnext
      exact .down (henter hdir hent) hname hlength hold hne (ih hup' hold hthere)
    · exact absurd (hrest.get?_of_new hd hg hup' hnew) hthere
  | @follow n dir name target _ _ _ _ hent hname hlength hlink hgranted hon _ ih =>
    have hold := hg.get?_eq_some_of_ne_dir hlink (by simp)
    refine .follow (henter hdir hent) hname hlength hold (hgrant _ _ hgranted) hon (ih ?_ ?_ hthere)
    · exact fun hmem => (List.mem_append.1 hmem).elim (hd.target hold) (List.not_mem_of_not_mem_cons hup)
    · unfold startOf
      split_ifs
      · rfl
      · exact hdir

/-- a path that does not step up leads to no more than it did before the directories were made -/
theorem stat_of_direct {e : Entry} (hd : t.Direct) (hg : t.Grown u) (hup : dotDot ∉ components (Text.untilNul path))
    (h : u.stat path = .ok e) (hdir : e ≠ .dir) : t.stat path = .ok e := by
  obtain ⟨loc, hloc, he⟩ := stat_eq_ok_iff.1 h
  obtain ⟨x, hx, hentry, rfl⟩ := resolve_eq_ok_iff.1 hloc
  obtain ⟨p, hp, hwalk⟩ := lookup_eq_ok_iff.1 hx
  have hold := hg.get?_eq_some_of_ne_dir he hdir
  rw [← (checkPath_eq_ok_iff.1 hp).1] at hup
  have hbefore := hwalk.of_grown hd hg hup rfl (by rw [hold]; exact nofun)
  exact stat_eq_ok_iff.2 ⟨_, resolve_eq_ok_iff.2 ⟨x, lookup_eq_ok_iff.2 ⟨p, hp, hbefore⟩,
    hentry.congr (hold.trans he.symm), rfl⟩, hold⟩

end FileTree

end CilPatch.Files
