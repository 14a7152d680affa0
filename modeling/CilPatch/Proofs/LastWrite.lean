/-
The last write wins.

Beside a module that is open, a patch is planned from the module alone, and the buffer only receives it. So in a run on
one buffer no answer depends on the steps before it, and a byte of the buffer is decided by the last step that covers
it.

- `Module.getElem?_next`: one step, byte by byte; `Module.getElem?_foldl_next` is the same for a whole run;
- `foldl_overwrite_of_last`, `foldl_overwrite_of_none`: only the last answer that covers a byte counts;
- `patchAll_inModule`: every run on every buffer.
-/
import Mathlib.Tactic
import CilPatch.Proofs.Runs

namespace CilPatch

/-! ## What one step does to a byte -/

/-- what the patch wrote at an offset of its span: a byte of the new body, or zero behind it -/
def PatchSummary.newByte (s : PatchSummary) (i : Nat) : UInt8 :=
  match s.method.returnCategory.defaultBody with
  | .ok body => body.getD (i - s.fileOffset) 0
  | .error _ => 0

/-- what becomes of the byte at an offset when a patch gives this answer -/
def overwrite (i : Nat) (old : Option UInt8) : Except PatchError PatchSummary → Option UInt8
  | .ok s => if s.overwritten.Mem i then some (s.newByte i) else old
  | .error _ => old

section

variable {i : Nat} {old : Option UInt8}

theorem overwrite_overwrite (answer : Except PatchError PatchSummary) :
    overwrite i (overwrite i old answer) answer = overwrite i old answer := by
  cases answer with
  | error e => rfl
  | ok s =>
    simp only [overwrite]
    split_ifs <;> rfl

theorem overwrite_comm {a c : Except PatchError PatchSummary}
    (hd : ∀ s q, a = .ok s → c = .ok q → s.overwritten.Disjoint q.overwritten) :
    overwrite i (overwrite i old a) c = overwrite i (overwrite i old c) a := by
  cases a with
  | error e => rfl
  | ok s =>
    cases c with
    | error e => rfl
    | ok q =>
      have hapart := hd s q rfl rfl i
      simp only [overwrite]
      split_ifs with hq hs
      · exact absurd hq (hapart hs)
      all_goals rfl

/-- answers that do not cover the byte leave it as it is -/
theorem foldl_overwrite_of_none {answers : List (Except PatchError PatchSummary)}
    (h : ∀ q, .ok q ∈ answers → ¬ q.overwritten.Mem i) : answers.foldl (overwrite i) old = old := by
  induction answers with
  | nil => rfl
  | cons a answers ih =>
    have hstep : overwrite i old a = old := by
      cases a with
      | error e => rfl
      | ok q => exact if_neg (h q List.mem_cons_self)
    rw [List.foldl_cons, hstep]
    exact ih fun q hq => h q (List.mem_cons_of_mem a hq)

/-- the last answer that covers the byte decides it -/
theorem foldl_overwrite_of_last {before after : List (Except PatchError PatchSummary)} {s : PatchSummary}
    (hs : s.overwritten.Mem i) (h : ∀ q, .ok q ∈ after → ¬ q.overwritten.Mem i) :
    (before ++ .ok s :: after).foldl (overwrite i) old = some (s.newByte i) := by
  rw [List.foldl_append, List.foldl_cons, foldl_overwrite_of_none h]
  exact if_pos hs

end

namespace Module

variable {m : Module} {t u : Target} {b : Bytes}

/-! ## Steps beside a module -/

/-- what a patch of the target answers on a buffer of the right size -/
def answer (m : Module) (t : Target) : Except PatchError PatchSummary := (m.plan t.type t.method).map (·.summary)

theorem inModule_of_size_ne (hb : b.size ≠ m.bytes.size) : t.inModule m b = (.error (m.sizeMismatch b), b) := by
  unfold Target.inModule patch
  rw [if_pos hb]

theorem next_of_size_ne (hb : b.size ≠ m.bytes.size) : m.next b t = b := by
  rw [next, inModule_of_size_ne hb]

theorem inModule_eq (hb : b.size = m.bytes.size) : t.inModule m b = (m.answer t, m.next b t) := by
  refine Prod.ext ?_ rfl
  unfold Target.inModule patch answer
  rw [if_neg (not_not.2 hb)]
  cases m.plan t.type t.method <;> rfl

/-- the byte of a buffer that a step decides: it depends on the plan, not on the rest of the buffer -/
theorem getElem?_next (hb : b.size = m.bytes.size) (t : Target) (i : Nat) :
    (m.next b t)[i]? = overwrite i b[i]? (m.answer t) := by
  cases hplan : m.plan t.type t.method with
  | error e =>
    have hnext : m.next b t = b := by
      unfold next Target.inModule patch
      rw [if_neg (not_not.2 hb), hplan]
    rw [hnext, answer, hplan]
    rfl
  | ok r =>
    have hfits := fits_of_plan hplan
    have hcategory := defaultBody_of_plan hplan
    have henc := hfits.encoded
    rw [next_of_plan hb hplan, Replacement.getElem?_apply (hb ▸ hfits), answer, hplan]
    simp only [Except.map, overwrite, PatchSummary.newByte, hcategory, List.getD_eq_getElem?_getD]
    split_ifs with hm hi
    · simp only [PatchSummary.overwritten, Bytes.Span.Mem] at hm
      rw [List.getElem?_eq_getElem (by omega), Option.getD_some]
    · rw [List.getElem?_eq_none (by omega), Option.getD_none]
    · rfl

/-- the same step again changes nothing -/
theorem next_next (b : Bytes) (t : Target) : m.next (m.next b t) t = m.next b t := by
  by_cases hb : b.size = m.bytes.size
  · have hnext : (m.next b t).size = m.bytes.size := (size_next b t).trans hb
    refine Array.ext_getElem? fun i => ?_
    rw [getElem?_next hnext, getElem?_next hb]
    exact overwrite_overwrite _
  · rw [next_of_size_ne hb, next_of_size_ne hb]

/-- steps with disjoint spans commute, and a step that fails commutes with every other -/
theorem next_comm_of_inModule {out : Bytes} (hb : b.size = out.size)
    (hd : ∀ s q, (t.inModule m out).1 = .ok s → (u.inModule m out).1 = .ok q →
      s.overwritten.Disjoint q.overwritten) : m.next (m.next b t) u = m.next (m.next b u) t := by
  by_cases hout : out.size = m.bytes.size
  · rw [inModule_eq hout, inModule_eq hout] at hd
    have hsize : b.size = m.bytes.size := hb.trans hout
    have hnext (v : Target) : (m.next b v).size = m.bytes.size := (size_next b v).trans hsize
    refine Array.ext_getElem? fun i => ?_
    rw [getElem?_next (hnext t), getElem?_next hsize, getElem?_next (hnext u), getElem?_next hsize]
    exact overwrite_comm hd
  · have hne : b.size ≠ m.bytes.size := fun h => hout (hb.symm.trans h)
    rw [next_of_size_ne hne, next_of_size_ne hne, next_of_size_ne hne]

/-! ## Runs beside a module -/

theorem size_foldl_next (ts : List Target) (b : Bytes) : (ts.foldl m.next b).size = b.size := by
  induction ts generalizing b with
  | nil => rfl
  | cons t ts ih => rw [List.foldl_cons, ih, size_next]

theorem getElem?_foldl_next (hb : b.size = m.bytes.size) (ts : List Target) (i : Nat) :
    (ts.foldl m.next b)[i]? = (ts.map m.answer).foldl (overwrite i) b[i]? := by
  induction ts generalizing b with
  | nil => rfl
  | cons t ts ih =>
    have hnext : (m.next b t).size = m.bytes.size := (size_next b t).trans hb
    calc ((t :: ts).foldl m.next b)[i]?
        = (ts.map m.answer).foldl (overwrite i) (m.next b t)[i]? := ih hnext
      _ = (ts.map m.answer).foldl (overwrite i) (overwrite i b[i]? (m.answer t)) := by rw [getElem?_next hb]
      _ = ((t :: ts).map m.answer).foldl (overwrite i) b[i]? := rfl

theorem patchAll_inModule_eq (hb : b.size = m.bytes.size) (ts : List Target) :
    patchAll (Target.inModule m) ts b = (ts.map m.answer, ts.foldl m.next b) := by
  refine patchAll_of_invariant (fun _ cur => cur.size = m.bytes.size) (fun t ts cur h => ?_) ts b hb
  exact ⟨inModule_eq h, (size_next cur t).trans h⟩

theorem patchAll_inModule_of_size_ne (hb : b.size ≠ m.bytes.size) (ts : List Target) :
    patchAll (Target.inModule m) ts b = (ts.map fun _ => .error (m.sizeMismatch b), b) := by
  have hrun : patchAll (Target.inModule m) ts b =
      (ts.map fun _ => .error (m.sizeMismatch b), ts.foldl (fun cur _ => cur) b) := by
    refine patchAll_of_invariant (fun _ cur => cur = b) (fun t ts cur h => ?_) ts b rfl
    rw [h]
    exact ⟨inModule_of_size_ne hb, rfl⟩
  rw [hrun, List.foldl_fixed]

/-- on every buffer, a run leaves what its steps leave one after the other -/
theorem snd_patchAll_inModule (ts : List Target) (b : Bytes) :
    (patchAll (Target.inModule m) ts b).2 = ts.foldl m.next b := by
  induction ts generalizing b with
  | nil => rfl
  | cons t ts ih => exact ih (m.next b t)

end Module

/-- **The last write wins.** Beside an open module, a buffer of another size is refused at every step and never changes.
On a buffer of the right size each answer is the one on every other such buffer, and each byte ends up as the last
successful step that covers it wrote it, or as it was. A step may be repeated, and steps with disjoint spans may change
places, anywhere in a run. -/
theorem patchAll_inModule (m : Module) (out : Bytes) (targets : List Target) :
    let run (ts : List Target) := patchAll (Target.inModule m) ts out
    (out.size ≠ m.bytes.size → run targets = (targets.map fun _ => .error (m.sizeMismatch out), out)) ∧
      (out.size = m.bytes.size →
        (∀ other : Bytes, other.size = m.bytes.size →
            (run targets).1 = targets.map fun t => (t.inModule m other).1) ∧
          (run targets).2.size = out.size ∧
          ∀ i, (∀ (before after : List (Except PatchError PatchSummary)) (s : PatchSummary),
                (run targets).1 = before ++ .ok s :: after → s.overwritten.Mem i →
                (∀ q : PatchSummary, .ok q ∈ after → ¬ q.overwritten.Mem i) →
                  (run targets).2[i]? = some (s.newByte i)) ∧
            ((∀ q : PatchSummary, .ok q ∈ (run targets).1 → ¬ q.overwritten.Mem i) →
              (run targets).2[i]? = out[i]?)) ∧
      (∀ (before after : List Target) (t : Target),
        (run (before ++ t :: t :: after)).2 = (run (before ++ t :: after)).2) ∧
      ∀ (before after : List Target) (t u : Target),
        (∀ s q : PatchSummary, (t.inModule m out).1 = .ok s → (u.inModule m out).1 = .ok q →
          s.overwritten.Disjoint q.overwritten) →
        (run (before ++ t :: u :: after)).2 = (run (before ++ u :: t :: after)).2 := by
  intro run
  refine ⟨fun hne => Module.patchAll_inModule_of_size_ne hne targets, fun hout => ?_, fun before after t => ?_,
    fun before after t u hd => ?_⟩
  · have hrun : run targets = (targets.map m.answer, targets.foldl m.next out) :=
      Module.patchAll_inModule_eq hout targets
    have hbyte := Module.getElem?_foldl_next hout targets
    rw [hrun]
    refine ⟨fun other hother => ?_, Module.size_foldl_next targets out, fun i => ⟨?_, fun hnone => ?_⟩⟩
    · exact List.map_congr_left fun t _ => (congrArg Prod.fst (Module.inModule_eq hother)).symm
    · intro before after s hsplit hs hafter
      have hanswers : targets.map m.answer = before ++ .ok s :: after := hsplit
      rw [hbyte, hanswers]
      exact foldl_overwrite_of_last hs hafter
    · rw [hbyte]
      exact foldl_overwrite_of_none hnone
  · simp only [run, Module.snd_patchAll_inModule, List.foldl_append, List.foldl_cons, Module.next_next]
  · have hbefore : (before.foldl m.next out).size = out.size := Module.size_foldl_next before out
    simp only [run, Module.snd_patchAll_inModule, List.foldl_append, List.foldl_cons]
    rw [Module.next_comm_of_inModule hbefore hd]

/-- a run beside the small module on a buffer of its size that holds other bytes; one step fails, one is repeated -/
theorem patchAll_inModule_small :
    let F : Target := ⟨Text.ascii "C", Text.ascii "F"⟩
    let G : Target := ⟨Text.ascii "C", Text.ascii "G"⟩
    let H : Target := ⟨Text.ascii "C", Text.ascii "H"⟩
    let out : Bytes := Array.replicate Small.file.size 0xFF
    let run (ts : List Target) := patchAll (Target.inModule Small.opened) ts out
    out.size = Small.opened.bytes.size ∧
      (run [F, H, G, F]).1 = [.ok Small.patchF.1.summary, .error (.methodNotFound (Text.ascii "C") (Text.ascii "H")),
        .ok Small.patchG.1.summary, .ok Small.patchF.1.summary] ∧
      -- the last byte of the new body, the first one behind it, and a byte outside of both spans
      (run [F, H, G, F]).2[362]? = some 0x2A ∧ (run [F, H, G, F]).2[363]? = some 0 ∧
      (run [F, H, G, F]).2[359]? = some 0xFF ∧ (run [F, F]).2 = (run [F]).2 ∧ (run [F, G]).2 = (run [G, F]).2 ∧
      patchAll (Target.inModule Small.opened) [F] #[] = ([.error (Small.opened.sizeMismatch #[])], #[]) := by
  intro F G H out run
  have hout : out.size = Small.opened.bytes.size := Array.size_replicate
  have hfile : Small.file.size = Small.opened.bytes.size := rfl
  have hF : F.inModule Small.opened Small.file = (.ok Small.patchF.1.summary, _) :=
    Module.inModule_of_plan hfile Small.patchF.2
  have hG : G.inModule Small.opened Small.file = (.ok Small.patchG.1.summary, _) :=
    Module.inModule_of_plan hfile Small.patchG.2
  have hH : (H.inModule Small.opened Small.file).1 = .error (.methodNotFound (Text.ascii "C") (Text.ascii "H")) :=
    Module.patch_of_plan_error hfile (by decide)
  obtain ⟨hanswers, -, hbytes⟩ := (patchAll_inModule Small.opened out [F, H, G, F]).2.1 hout
  obtain ⟨-, -, hrepeat, hswap⟩ := patchAll_inModule Small.opened out []
  have hrun : (run [F, H, G, F]).1 = [.ok Small.patchF.1.summary,
      .error (.methodNotFound (Text.ascii "C") (Text.ascii "H")), .ok Small.patchG.1.summary,
      .ok Small.patchF.1.summary] := by
    rw [hanswers Small.file hfile]
    simp only [List.map_cons, List.map_nil, hF, hG, hH]
  have hlast (i : Nat) (hi : Small.patchF.1.summary.overwritten.Mem i) :
      (run [F, H, G, F]).2[i]? = some (Small.patchF.1.summary.newByte i) :=
    (hbytes i).1 [_, _, _] [] _ hrun hi (by simp)
  have hnone : ∀ q, .ok q ∈ (run [F, H, G, F]).1 → ¬ q.overwritten.Mem 359 := by
    rw [hrun]
    intro q hq
    simp only [List.mem_cons, Except.ok.injEq, reduceCtorEq, List.not_mem_nil, false_or, or_false] at hq
    rcases hq with rfl | rfl | rfl <;> decide
  refine ⟨hout, hrun, hlast 362 (by decide), hlast 363 (by decide), ?_, hrepeat [] [] F, ?_, ?_⟩
  · have hlt : 359 < Small.file.size := by decide +kernel
    exact ((hbytes 359).2 hnone).trans (by simp only [out, Array.getElem?_replicate, if_pos hlt])
  · refine hswap [] [] F G fun s q hs hq => ?_
    have hFout : F.inModule Small.opened out = (.ok Small.patchF.1.summary, _) :=
      Module.inModule_of_plan hout Small.patchF.2
    have hGout : G.inModule Small.opened out = (.ok Small.patchG.1.summary, _) :=
      Module.inModule_of_plan hout Small.patchG.2
    rw [hFout] at hs
    rw [hGout] at hq
    cases hs
    cases hq
    decide
  · exact (patchAll_inModule Small.opened #[] [F]).1 (by decide +kernel)

end CilPatch
