/-
Patch after patch on one buffer.

A patch changes neither the headers nor the metadata nor the other bodies when its span misses them. So the file opens
as the same module afterwards, and every other patch has the same plan as before.

- `patchBytes_of_agree`: a patch of a changed file is the patch of the first one when the module and the body look the
  same;
- `patchBytes_idempotent`: a second patch of the same method changes nothing;
- `patchAll_perm`: patches of disjoint bodies may run in any order, and opening the file once is enough.
-/
import Mathlib.Tactic
import CilPatch.Proofs.Replacement
import CilPatch.Proofs.TinyBodies

namespace CilPatch

open Bytes (Span AgreeOn)

/-! ## The same body in another file -/

namespace Module

variable {m : Module} {type method : Text} {r : Replacement}

/-- the plan of a patch depends on the parsed module and on the bytes of the body -/
theorem plan_of_agree (h : m.plan type method = .ok r) {file : Bytes} (hsize : file.size = m.bytes.size)
    (hag : m.bytes.AgreeOn file r.summary.overwritten) (origin : Text) :
    ({ m with bytes := file, origin := origin } : Module).plan type method = .ok r := by
  obtain ⟨t, d, l, ht, hd, hl, hr⟩ := plan_eq_ok_iff.1 h
  obtain ⟨hrva, hoff, hlt, hread, hmore, hin⟩ := locate_eq_ok_iff.1 hl
  obtain ⟨-, -, hs⟩ := replace_eq_ok_iff.1 hr
  have hread' : BodyHeader.readAt file l.fileOffset = .ok l.header := by
    rw [hs] at hag
    exact BodyHeader.readAt_of_agree hread hag
  refine plan_eq_ok_iff.2 ⟨t, d, l, ht, hd, locate_eq_ok_iff.2 ⟨hrva, hoff, ?_, hread', hmore, ?_⟩, hr⟩
  · exact hsize ▸ hlt
  · exact hsize ▸ hin

/-- a patch of a file that looks like the module, with the same body in it, is the patch of the module -/
theorem patchBytes_of_agree {b file : Bytes} {origin : Text} (hm : ofBytes b origin = .ok m)
    (hlike : m.LooksLike file) (h : m.plan type method = .ok r)
    (hag : m.bytes.AgreeOn file r.summary.overwritten) :
    patchBytes file type method = (.ok r.summary, r.apply file) :=
  patchBytes_eq_ok_iff.2 ⟨_, r, ofBytes_of_looksLike hm hlike inMemory, plan_of_agree h hlike.1 hag inMemory, rfl, rfl⟩

end Module

namespace Replacement

variable {r : Replacement} {b : Bytes}

/-- a replacement keeps the bytes of every range that its span misses -/
theorem agreeOn_apply (h : r.Fits b.size) {s : Span} (hd : r.summary.overwritten.Disjoint s) :
    AgreeOn b (r.apply b) s := by
  intro i hi
  rw [getElem?_apply h, if_neg (fun hm => hd i hm hi)]

/-- a file still looks like the module after a replacement that misses the consulted spans -/
theorem looksLike_apply {m : Module} (h : r.Fits m.bytes.size) {file : Bytes} (hlike : m.LooksLike file)
    (hd : ∀ c ∈ m.consulted, r.summary.overwritten.Disjoint c) : m.LooksLike (r.apply file) := by
  obtain ⟨hsize, hag⟩ := hlike
  exact ⟨by simpa using hsize, fun c hc => (hag c hc).trans (agreeOn_apply (by rw [hsize]; exact h) (hd c hc))⟩

end Replacement

theorem Module.looksLike_self (m : Module) : m.LooksLike m.bytes := ⟨rfl, fun s _ => AgreeOn.refl _ s⟩

/-! ## The same patch twice -/

theorem ReturnCategory.wrapTiny_of_defaultBody {c : ReturnCategory} {body : List UInt8}
    (h : c.defaultBody = .ok body) : wrapTiny c.defaultCode = .ok body := by
  unfold defaultBody at h
  split_ifs at h
  exact h

namespace Replacement

/-- the plan of the same patch on the patched file: the body there is the new one, and nothing is left to clear -/
def again (r : Replacement) : Replacement :=
  ⟨⟨r.summary.method, r.summary.fileOffset, ⟨.tiny, 1, r.summary.encodedSize - 1, 0, false⟩, r.summary.encodedSize,
    r.summary.encodedSize⟩, r.body⟩

variable {r : Replacement} {b : Bytes}

theorem holds_apply (h : r.Fits b.size) : (r.apply b).Holds r.summary.fileOffset r.body := by
  have henc := h.encoded
  have hle := h.body
  intro i hi
  rw [getElem?_apply h, if_pos, if_pos (by omega), Nat.add_sub_cancel_left]
  simp only [PatchSummary.overwritten, Span.Mem, Span.stop]
  omega

theorem apply_again (h : r.Fits b.size) : r.again.apply (r.apply b) = r.apply b := by
  have hin := h.inside
  have hle := h.body
  simp only [PatchSummary.overwritten, Span.stop] at hin
  have hcontent : r.again.content = r.body := by simp [content, again, h.encoded]
  rw [apply, hcontent]
  refine Bytes.write_of_holds ?_ (holds_apply h)
  rw [size_apply]
  simp only [again]
  omega

end Replacement

namespace Module

variable {m : Module} {type method : Text} {r : Replacement}

theorem plan_again (h : m.plan type method = .ok r) (origin : Text) :
    ({ m with bytes := r.apply m.bytes, origin := origin } : Module).plan type method = .ok r.again := by
  have hfits := fits_of_plan h
  obtain ⟨t, d, l, ht, hd, hl, hr⟩ := plan_eq_ok_iff.1 h
  obtain ⟨hrva, hoff, hlt, -, -, -⟩ := locate_eq_ok_iff.1 hl
  obtain ⟨hbody, -, hs⟩ := replace_eq_ok_iff.1 hr
  have hwrap := ReturnCategory.wrapTiny_of_defaultBody hbody
  have hlen := length_of_wrapTiny hwrap
  have hread : BodyHeader.readAt (r.apply m.bytes) l.fileOffset
      = .ok ⟨.tiny, 1, d.returnCategory.defaultCode.length, 0, false⟩ := by
    have := Replacement.holds_apply hfits
    rw [hs] at this
    exact BodyHeader.readAt_of_holds_tiny hwrap this
  have hin := hfits.inside
  have hle := hfits.body
  simp only [hs, PatchSummary.overwritten, Span.stop] at hin hle
  have htiny : r.again.summary.replaced = ⟨.tiny, 1, d.returnCategory.defaultCode.length, 0, false⟩ := by
    simp only [Replacement.again, hs, hlen, Nat.add_sub_cancel]
  have hspan : r.again.summary.replaced.span = r.body.length := by
    rw [htiny, (BodyHeader.span_of_readAt hread).2, hlen, Nat.add_comm]
  refine plan_eq_ok_iff.2 ⟨t, d, ⟨l.fileOffset, r.again.summary.replaced⟩, ht, hd, locate_eq_ok_iff.2 ?_,
    replace_eq_ok_iff.2 ⟨hbody, hspan.ge, ?_⟩⟩
  · refine ⟨hrva, hoff, by simpa using hlt, htiny ▸ hread, by rw [htiny], ?_⟩
    rw [htiny]
    simp only [Replacement.size_apply]
    omega
  · simp only [hspan]
    simp only [Replacement.again, hs]

theorem encodedSize_pos (h : m.plan type method = .ok r) : 0 < r.summary.encodedSize := by
  obtain ⟨t, d, l, -, -, -, hr⟩ := plan_eq_ok_iff.1 h
  have hwrap := ReturnCategory.wrapTiny_of_defaultBody (replace_eq_ok_iff.1 hr).1
  rw [(fits_of_plan h).encoded, length_of_wrapTiny hwrap]
  exact Nat.succ_pos _

end Module

/-! ### The small module -/

namespace Small

/-- what opening the file reads -/
def consulted : { spans : List Span // opened.consulted = spans } :=
  ⟨[⟨0, 2⟩, ⟨60, 4⟩, ⟨64, 4⟩, ⟨68, 4⟩, ⟨84, 2⟩, ⟨88, 2⟩, ⟨180, 4⟩, ⟨296, 8⟩, ⟨304, 24⟩, ⟨352, 8⟩, ⟨408, 162⟩],
    by decide +kernel⟩

theorem patchF_misses : ∀ c ∈ opened.consulted, patchF.1.summary.overwritten.Disjoint c := by
  rw [consulted.2]
  decide

theorem patchG_misses : ∀ c ∈ opened.consulted, patchG.1.summary.overwritten.Disjoint c := by
  rw [consulted.2]
  decide

end Small

/-- **Patching twice changes nothing more.** When the overwritten span holds none of the consulted bytes, the same patch
of the patched file succeeds, finds the tiny body that the first one wrote, and leaves every byte as it is. -/
theorem patchBytes_idempotent (b : Bytes) (type method : Text) (m : Module) (s : PatchSummary) (out : Bytes)
    (hm : Module.ofBytes b Module.inMemory = .ok m) (hp : patchBytes b type method = (.ok s, out))
    (hd : ∀ c ∈ m.consulted, s.overwritten.Disjoint c) :
    0 < s.encodedSize ∧ patchBytes out type method =
      (.ok ⟨s.method, s.fileOffset, ⟨.tiny, 1, s.encodedSize - 1, 0, false⟩, s.encodedSize, s.encodedSize⟩, out) := by
  obtain ⟨m', r, hm', hr, rfl, rfl⟩ := patchBytes_eq_ok_iff.1 hp
  cases hm.symm.trans hm'
  obtain rfl := Module.bytes_of_ofBytes hm
  have hfits := Module.fits_of_plan hr
  have hlike := r.looksLike_apply hfits m.looksLike_self hd
  have hopen := Module.ofBytes_of_looksLike hm hlike Module.inMemory
  exact ⟨Module.encodedSize_pos hr, patchBytes_eq_ok_iff.2
    ⟨_, r.again, hopen, Module.plan_again hr Module.inMemory, rfl, (Replacement.apply_again hfits).symm⟩⟩

theorem patchBytes_idempotent_small :
    0 < Small.patchF.1.summary.encodedSize ∧
      patchBytes (Small.patchF.1.apply Small.file) (Text.ascii "C") (Text.ascii "F") =
        (.ok Small.patchF.1.again.summary, Small.patchF.1.apply Small.file) :=
  patchBytes_idempotent Small.file (Text.ascii "C") (Text.ascii "F") Small.opened Small.patchF.1.summary
    (Small.patchF.1.apply Small.file) Small.ofBytes_file Small.patchBytes_F Small.patchF_misses

/-! ## Many patches in a row -/

/-- the type and the method a patch is about -/
structure Target where
  type : Text
  method : Text
  deriving DecidableEq, Repr

namespace Target

/-- patches the target in a buffer, which is opened for that -/
def inBuffer (t : Target) (b : Bytes) : Except PatchError PatchSummary × Bytes := patchBytes b t.type t.method

/-- patches the target in a buffer beside a module that is open already -/
def inModule (m : Module) (t : Target) (b : Bytes) : Except PatchError PatchSummary × Bytes :=
  m.patch t.type t.method b

end Target

/-- runs one patch after the other on a buffer: all answers in order, and the buffer at the end -/
def patchAll (patch : Target → Bytes → Except PatchError PatchSummary × Bytes) :
    List Target → Bytes → List (Except PatchError PatchSummary) × Bytes
  | [], b => ([], b)
  | t :: ts, b =>
    let (answer, next) := patch t b
    let (answers, out) := patchAll patch ts next
    (answer :: answers, out)

/-- a run whose steps are known as long as an invariant of the targets left and the buffer holds -/
theorem patchAll_of_invariant {patch : Target → Bytes → Except PatchError PatchSummary × Bytes}
    {answer : Target → Except PatchError PatchSummary} {next : Bytes → Target → Bytes}
    (Inv : List Target → Bytes → Prop)
    (hstep : ∀ t ts b, Inv (t :: ts) b → patch t b = (answer t, next b t) ∧ Inv ts (next b t))
    (ts : List Target) (b : Bytes) (h : Inv ts b) : patchAll patch ts b = (ts.map answer, ts.foldl next b) := by
  induction ts generalizing b with
  | nil => rfl
  | cons t ts ih =>
    obtain ⟨hpatch, hinv⟩ := hstep t ts b h
    simp only [patchAll, hpatch, ih _ hinv]
    rfl

namespace Module

variable {m : Module}

/-- the buffer after a patch of the target beside the module -/
def next (m : Module) (b : Bytes) (t : Target) : Bytes := (t.inModule m b).2

theorem inModule_of_plan {t : Target} {r : Replacement} {b : Bytes} (hb : b.size = m.bytes.size)
    (h : m.plan t.type t.method = .ok r) : t.inModule m b = (.ok r.summary, r.apply b) :=
  (patch_eq_ok_iff hb).2 ⟨r, h, rfl, rfl⟩

theorem next_of_plan {t : Target} {r : Replacement} {b : Bytes} (hb : b.size = m.bytes.size)
    (h : m.plan t.type t.method = .ok r) : m.next b t = r.apply b := by
  rw [next, inModule_of_plan hb h]

theorem size_next (b : Bytes) (t : Target) : (m.next b t).size = b.size := by
  unfold next Target.inModule patch
  split_ifs
  · rfl
  · split
    · rfl
    · exact Replacement.size_apply _ _

/-- patches of disjoint spans commute -/
theorem next_comm {t u : Target} {r q : Replacement} (ht : m.plan t.type t.method = .ok r)
    (hu : m.plan u.type u.method = .ok q) (hd : r.summary.overwritten.Disjoint q.summary.overwritten) (b : Bytes) :
    m.next (m.next b t) u = m.next (m.next b u) t := by
  by_cases hb : b.size = m.bytes.size
  · have hr := fits_of_plan ht
    have hq := fits_of_plan hu
    rw [next_of_plan hb ht, next_of_plan hb hu, next_of_plan (by simpa using hb) hu,
      next_of_plan (by simpa using hb) ht]
    refine Bytes.write_comm ?_ ?_ ?_
    · rw [hr.length_content, hb]; exact hr.inside
    · rw [hq.length_content, hb]; exact hq.inside
    · rw [hr.length_content, hq.length_content]; exact hd
  · have hsame (t : Target) : m.next b t = b := by
      unfold next Target.inModule patch
      rw [if_pos hb]
    rw [hsame, hsame, hsame]

/-- what a run on a buffer needs: the module is still to be seen in it, and so are the bodies that are left -/
structure Ready (m : Module) (summary : Target → PatchSummary) (ts : List Target) (b : Bytes) : Prop where
  looksLike : m.LooksLike b
  bodies : ∀ t ∈ ts, m.bytes.AgreeOn b (summary t).overwritten
  plans : ∀ t ∈ ts, ∃ r, m.plan t.type t.method = .ok r ∧ r.summary = summary t
  apart : ts.Pairwise fun t u => (summary t).overwritten.Disjoint (summary u).overwritten
  missed : ∀ t ∈ ts, ∀ c ∈ m.consulted, (summary t).overwritten.Disjoint c

/-- one step of a run: the answer is the one on the untouched file, and the rest of the run is ready -/
theorem Ready.step {b : Bytes} {origin : Text} (hm : ofBytes b origin = .ok m) {summary : Target → PatchSummary}
    {t : Target} {ts : List Target} {cur : Bytes} (h : m.Ready summary (t :: ts) cur) :
    t.inBuffer cur = (.ok (summary t), m.next cur t) ∧ m.Ready summary ts (m.next cur t) := by
  obtain ⟨r, hr, hs⟩ := h.plans t List.mem_cons_self
  have hsize := h.looksLike.1
  have hfits : r.Fits cur.size := hsize ▸ fits_of_plan hr
  obtain ⟨hhead, htail⟩ := List.pairwise_cons.1 h.apart
  have hnext := next_of_plan hsize hr
  refine ⟨?_, ?_⟩
  · rw [hnext, ← hs]
    exact patchBytes_of_agree hm h.looksLike hr (hs ▸ h.bodies t List.mem_cons_self)
  · rw [hnext]
    refine ⟨r.looksLike_apply (fits_of_plan hr) h.looksLike (hs ▸ h.missed t List.mem_cons_self), fun u hu => ?_,
      fun u hu => h.plans u (List.mem_cons_of_mem t hu), htail, fun u hu => h.missed u (List.mem_cons_of_mem t hu)⟩
    exact (h.bodies u (List.mem_cons_of_mem t hu)).trans (Replacement.agreeOn_apply hfits (hs ▸ hhead u hu))

theorem plan_of_patchBytes {b : Bytes} {origin : Text} (hm : ofBytes b origin = .ok m) {type method : Text}
    {s : PatchSummary} (h : (patchBytes b type method).1 = .ok s) :
    ∃ r, m.plan type method = .ok r ∧ r.summary = s := by
  obtain ⟨m', r, hm', hr, rfl, -⟩ := patchBytes_eq_ok_iff.1 (Prod.ext h rfl)
  obtain rfl := bytes_of_ofBytes hm
  have hopen := ofBytes_of_looksLike hm m.looksLike_self inMemory
  cases hm'.symm.trans hopen
  exact ⟨r, plan_of_agree hr rfl (AgreeOn.refl _ _) m.origin, rfl⟩

end Module

/-- **Patches of disjoint bodies may run in any order.** All targets can be patched in the file one by one, their spans
are disjoint from each other and from the consulted bytes. Then a run in any order succeeds at every step with the
summary that the target has on the untouched file, every order ends with the same buffer, and so does a run on one copy
of the file beside the module that was opened once. -/
theorem patchAll_perm (b : Bytes) (origin : Text) (m : Module) (summary : Target → PatchSummary)
    (targets : List Target) (hm : Module.ofBytes b origin = .ok m)
    (hok : ∀ t ∈ targets, (t.inBuffer b).1 = .ok (summary t))
    (hapart : targets.Pairwise fun t u => (summary t).overwritten.Disjoint (summary u).overwritten)
    (hd : ∀ t ∈ targets, ∀ c ∈ m.consulted, (summary t).overwritten.Disjoint c) :
    ∃ final, ∀ order, order.Perm targets →
      patchAll Target.inBuffer order b = (order.map fun t => .ok (summary t), final) ∧
      patchAll (Target.inModule m) order b = (order.map fun t => .ok (summary t), final) := by
  obtain rfl := Module.bytes_of_ofBytes hm
  have hplans : ∀ t ∈ targets, ∃ r, m.plan t.type t.method = .ok r ∧ r.summary = summary t :=
    fun t ht => Module.plan_of_patchBytes hm (hok t ht)
  refine ⟨targets.foldl m.next m.bytes, fun order hperm => ?_⟩
  have hmem : ∀ t ∈ order, t ∈ targets := fun t ht => hperm.mem_iff.1 ht
  -- the steps commute pairwise, so the last buffer does not depend on the order
  have hfinal : order.foldl m.next m.bytes = targets.foldl m.next m.bytes := by
    refine (hperm.symm.foldl_eq' (fun t ht u hu z => ?_) m.bytes).symm
    by_cases htu : t = u
    · rw [htu]
    · obtain ⟨r, hr, hrs⟩ := hplans t ht
      obtain ⟨q, hq, hqs⟩ := hplans u hu
      have : Std.Symm fun t u => (summary t).overwritten.Disjoint (summary u).overwritten := ⟨fun _ _ h => h.symm⟩
      exact Module.next_comm hr hq (hrs ▸ hqs ▸ hapart.forall ht hu htu) z
  rw [← hfinal]
  have hready : m.Ready summary order m.bytes :=
    ⟨m.looksLike_self, fun t _ => AgreeOn.refl _ _, fun t ht => hplans t (hmem t ht),
      (hperm.pairwise_iff fun h => h.symm).2 hapart, fun t ht => hd t (hmem t ht)⟩
  -- opening the buffer again needs `Ready`; beside the open module its size is enough
  refine ⟨patchAll_of_invariant (m.Ready summary) (fun t ts cur h => h.step hm) order m.bytes hready, ?_⟩
  refine patchAll_of_invariant (fun ts cur => cur.size = m.bytes.size ∧ ∀ t ∈ ts, t ∈ targets)
    (fun t ts cur h => ?_) order m.bytes ⟨rfl, hmem⟩
  obtain ⟨r, hr, hs⟩ := hplans t (h.2 t List.mem_cons_self)
  refine ⟨?_, by rw [Module.size_next]; exact h.1, fun u hu => h.2 u (List.mem_cons_of_mem t hu)⟩
  rw [Module.next_of_plan h.1 hr, ← hs]
  exact Module.inModule_of_plan h.1 hr

/-- both methods of the small module may be patched in either order -/
theorem patchAll_perm_small :
    let F : Target := ⟨Text.ascii "C", Text.ascii "F"⟩
    let G : Target := ⟨Text.ascii "C", Text.ascii "G"⟩
    let summary (t : Target) : PatchSummary := if t = F then Small.patchF.1.summary else Small.patchG.1.summary
    ∃ final, ∀ order, order.Perm [F, G] →
      patchAll Target.inBuffer order Small.file = (order.map fun t => .ok (summary t), final) ∧
      patchAll (Target.inModule Small.opened) order Small.file = (order.map fun t => .ok (summary t), final) := by
  intro F G summary
  refine patchAll_perm Small.file Module.inMemory Small.opened summary [F, G] Small.ofBytes_file ?_ (by decide) ?_
  · intro t ht
    have ht : t = F ∨ t = G := by simpa using ht
    rcases ht with rfl | rfl
    · exact congrArg Prod.fst Small.patchBytes_F
    · exact congrArg Prod.fst Small.patchBytes_G
  · intro t ht
    have ht : t = F ∨ t = G := by simpa using ht
    rcases ht with rfl | rfl
    · exact Small.patchF_misses
    · exact Small.patchG_misses

end CilPatch
