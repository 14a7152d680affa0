/-
What a patch does to the buffer, from the buffer before it.

`Patched` says which method is meant, where its body stood and what the buffer holds afterwards. `patched_iff` is the
main result: a patch that fails leaves the buffer as it was, and one that succeeds does exactly what `Patched` says.

- `findType?_eq_some_iff`, `findMethod?_eq_some_iff`: a name means the first type or method declared with it;
- `locate_eq_ok_iff`, `replace_eq_ok_iff`, `plan_eq_ok_iff`: what each stage checks;
- `getElem?_apply`: every byte after a replacement.
-/
import Mathlib.Tactic
import CilPatch.Patch.Image
import CilPatch.Proofs.BodyHeaders
import CilPatch.Proofs.Opening
import CilPatch.Proofs.Rows

namespace CilPatch

open Bytes (Span AgreeOn Holds)
open Metadata (TypeEntry MethodRow)

/-! ## Lookup -/

namespace Module

/-- the type is the first one declared with this full name -/
def FirstType (m : Module) (fullName : Text) (t : TypeEntry) : Prop :=
  ∃ before after, m.metadata.types.toList = before ++ t :: after ∧ t.fullName = fullName ∧
    ∀ u ∈ before, u.fullName ≠ fullName

/-- the row is the first method of the type with this name; rows that do not exist have no name -/
def FirstMethod (m : Module) (t : TypeEntry) (name : Text) (r : MethodRow) : Prop :=
  ∃ before row after, t.methodRows = before ++ row :: after ∧ m.metadata.method? row = some r ∧ r.name = name ∧
    ∀ i ∈ before, ∀ u, m.metadata.method? i = some u → u.name ≠ name

variable {m : Module}

theorem findType?_eq_some_iff {fullName : Text} {t : TypeEntry} :
    m.findType? fullName = some t ↔ m.FirstType fullName t := by
  rw [findType?, ← Array.find?_toList, List.find?_eq_some_iff_append]
  refine ⟨fun h => ?_, fun h => ?_⟩
  · obtain ⟨ht, before, after, hl, hb⟩ := h
    exact ⟨before, after, hl, by simpa using ht, fun u hu => by simpa using hb u hu⟩
  · obtain ⟨before, after, hl, ht, hb⟩ := h
    exact ⟨by simpa using ht, before, after, hl, fun u hu => by simpa using hb u hu⟩

theorem findMethod?_eq_some_iff {t : TypeEntry} {name : Text} {d : MethodDescriptor} :
    m.findMethod? t name = some d ↔ ∃ r, m.FirstMethod t name r ∧ d = .ofRow t.fullName r := by
  simp only [findMethod?, Option.map_eq_some_iff, List.findSome?_eq_some_iff, Option.filter_eq_some_iff,
    Option.filter_eq_none_iff, decide_eq_true_eq]
  refine ⟨fun h => ?_, fun h => ?_⟩
  · obtain ⟨r, ⟨before, row, after, hl, ⟨hr, hn⟩, hb⟩, rfl⟩ := h
    exact ⟨r, ⟨before, row, after, hl, hr, hn, hb⟩, rfl⟩
  · obtain ⟨r, ⟨before, row, after, hl, hr, hn, hb⟩, rfl⟩ := h
    exact ⟨r, ⟨before, row, after, hl, ⟨hr, hn⟩, hb⟩, rfl⟩

end Module

/-! ## Location -/

theorem MethodDescriptor.rva_ofRow (typeName : Text) (row : MethodRow) : (ofRow typeName row).rva = row.rva := by
  unfold ofRow
  cases row.signature <;> rfl

namespace Module

variable {m : Module}

theorem locate_eq_ok_iff {d : MethodDescriptor} {l : LocatedBody} :
    m.locate d = .ok l ↔ d.rva ≠ 0 ∧ m.image.fileOffset? d.rva = some l.fileOffset ∧ l.fileOffset < m.bytes.size ∧
      BodyHeader.readAt m.bytes l.fileOffset = .ok l.header ∧ l.header.moreSections = false ∧
      l.fileOffset + l.header.headerSize + l.header.codeSize ≤ m.bytes.size := by
  unfold locate bodyOffset?
  refine ⟨fun h => ?_, fun h => ?_⟩
  · split_ifs at h with h0
    split at h
    · cases h
    · rename_i offset hoff
      obtain ⟨hmap, hlt⟩ := Option.filter_eq_some_iff.1 hoff
      split at h
      · cases h
      · rename_i hd hread
        split_ifs at h with hm hle
        cases h
        exact ⟨h0, hmap, by simpa using hlt, hread, by simpa using hm, not_lt.1 hle⟩
  · obtain ⟨h0, hmap, hlt, hread, hm, hle⟩ := h
    have hoff : (m.image.fileOffset? d.rva).filter (· < m.bytes.size) = some l.fileOffset :=
      Option.filter_eq_some_iff.2 ⟨hmap, by simpa using hlt⟩
    simp only [if_neg h0, hoff, hread, hm]
    rw [if_neg (by simp), if_neg (by omega)]

/-! ## The plan -/

theorem replace_eq_ok_iff {d : MethodDescriptor} {l : LocatedBody} {r : Replacement} :
    replace d l = .ok r ↔ d.returnCategory.defaultBody = .ok r.body ∧ r.body.length ≤ l.header.span ∧
      r.summary = ⟨d, l.fileOffset, l.header, l.header.span, r.body.length⟩ := by
  unfold replace
  refine ⟨fun h => ?_, fun h => ?_⟩
  · split at h
    · cases h
    · rename_i body hbody
      split_ifs at h with hlt
      cases h
      exact ⟨hbody, not_lt.1 hlt, rfl⟩
  · obtain ⟨hbody, hle, hs⟩ := h
    simp only [hbody]
    rw [if_neg (not_lt.2 hle), ← hs]

theorem plan_eq_ok_iff {type method : Text} {r : Replacement} :
    m.plan type method = .ok r ↔ ∃ t d l, m.findType? type = some t ∧ m.findMethod? t method = some d ∧
      m.locate d = .ok l ∧ replace d l = .ok r := by
  unfold plan
  refine ⟨fun h => ?_, fun h => ?_⟩
  · split at h
    · cases h
    · rename_i t ht
      split at h
      · cases h
      · rename_i d hd
        split at h
        · cases h
        · rename_i l hl
          exact ⟨t, d, l, ht, hd, hl, h⟩
  · obtain ⟨t, d, l, ht, hd, hl, h⟩ := h
    simp only [ht, hd, hl, h]

theorem patch_eq_ok_iff {type method : Text} {b out : Bytes} {s : PatchSummary} (hb : b.size = m.bytes.size) :
    m.patch type method b = (.ok s, out) ↔ ∃ r, m.plan type method = .ok r ∧ s = r.summary ∧ out = r.apply b := by
  unfold patch
  rw [if_neg (by simpa using hb)]
  refine ⟨fun h => ?_, fun h => ?_⟩
  · split at h
    · cases h
    · rename_i r hr
      cases h
      exact ⟨r, hr, rfl, rfl⟩
  · obtain ⟨r, hr, rfl, rfl⟩ := h
    simp only [hr]

theorem patch_of_plan_error {type method : Text} {b : Bytes} {e : PatchError} (hb : b.size = m.bytes.size)
    (h : m.plan type method = .error e) : (m.patch type method b).1 = .error e := by
  unfold patch
  rw [if_neg (not_not.2 hb), h]

/-- a failure leaves the buffer as it was -/
theorem patch_of_error {type method : Text} {b : Bytes} {e : PatchError}
    (h : (m.patch type method b).1 = .error e) : (m.patch type method b).2 = b := by
  unfold patch at h ⊢
  split_ifs at h ⊢
  · rfl
  · split at h <;> simp_all

end Module

/-! ## The written bytes -/

namespace PatchSummary

/-- the part of the file that the patch overwrote -/
def overwritten (s : PatchSummary) : Span := ⟨s.fileOffset, s.span⟩

end PatchSummary

namespace Replacement

/-- the new body fits into the old one, which lies inside a buffer of this size -/
structure Fits (r : Replacement) (size : Nat) : Prop where
  encoded : r.summary.encodedSize = r.body.length
  body : r.body.length ≤ r.summary.span
  inside : r.summary.overwritten.stop ≤ size

variable {r : Replacement} {b : Bytes}

theorem Fits.length_content {size : Nat} (h : r.Fits size) : r.content.length = r.summary.span := by
  have := h.body
  simp only [content, List.length_append, List.length_replicate]
  omega

@[simp] theorem size_apply (r : Replacement) (b : Bytes) : (r.apply b).size = b.size := Bytes.size_write _ _ _

/-- every byte after a replacement: that of the new body, then zero, and outside of the span the old one -/
theorem getElem?_apply (h : r.Fits b.size) (i : Nat) :
    (r.apply b)[i]? =
      if r.summary.overwritten.Mem i then
        if i < r.summary.fileOffset + r.summary.encodedSize then r.body[i - r.summary.fileOffset]? else some 0
      else b[i]? := by
  have hlen := h.length_content
  have hin := h.inside
  simp only [PatchSummary.overwritten, Span.stop] at hin
  rw [apply, Bytes.getElem?_write b _ _ (by omega), hlen]
  by_cases hm : r.summary.overwritten.Mem i
  · have hm' := hm
    simp only [PatchSummary.overwritten, Span.Mem, Span.stop] at hm'
    rw [if_pos hm', if_pos hm, h.encoded, content]
    split_ifs with hi
    · rw [List.getElem?_append_left (by omega)]
    · rw [List.getElem?_append_right (by omega), List.getElem?_replicate, if_pos (by omega)]
  · rw [if_neg hm]
    exact if_neg hm

end Replacement

namespace Module

theorem fits_of_plan {m : Module} {type method : Text} {r : Replacement} (h : m.plan type method = .ok r) :
    r.Fits m.bytes.size := by
  obtain ⟨t, d, l, -, -, hl, hr⟩ := plan_eq_ok_iff.1 h
  obtain ⟨-, hle, hs⟩ := replace_eq_ok_iff.1 hr
  obtain ⟨-, -, -, hread, -, hin⟩ := locate_eq_ok_iff.1 hl
  obtain ⟨-, hspan⟩ := BodyHeader.span_of_readAt hread
  refine ⟨by rw [hs], by rw [hs]; exact hle, ?_⟩
  simp only [hs, PatchSummary.overwritten, Span.stop, hspan]
  omega

/-- the new body is the default one for the category in the summary -/
theorem defaultBody_of_plan {m : Module} {type method : Text} {r : Replacement} (h : m.plan type method = .ok r) :
    r.summary.method.returnCategory.defaultBody = .ok r.body := by
  obtain ⟨t, d, l, -, -, -, hr⟩ := plan_eq_ok_iff.1 h
  obtain ⟨hbody, -, hs⟩ := replace_eq_ok_iff.1 hr
  rw [hs]
  exact hbody

end Module

/-! ## Main result -/

/-- what a successful patch of a module means: `t` and `row` are the type and the method it is about -/
structure Patched (m : Module) (t : TypeEntry) (row : MethodRow) (type method : Text) (s : PatchSummary)
    (out : Bytes) : Prop where
  type : m.FirstType type t
  method : m.FirstMethod t method row
  descriptor : s.method = .ofRow t.fullName row
  address : row.rva ≠ 0
  offset : m.image.fileOffset? row.rva = some s.fileOffset
  /-- the header that stood there before -/
  header : BodyHeader.readAt m.bytes s.fileOffset = .ok s.replaced
  moreSections : s.replaced.moreSections = false
  span : s.span = s.replaced.headerSize + s.replaced.codeSize
  inside : s.fileOffset + s.span ≤ m.bytes.size
  size : out.size = m.bytes.size
  frame : ∀ i, ¬ s.overwritten.Mem i → out[i]? = m.bytes[i]?
  /-- the new body is the one for the return category in the method's signature -/
  body : ∃ signature body, row.signature = some signature ∧ signature.returnCategory.defaultBody = .ok body ∧
    s.encodedSize = body.length ∧ body.length ≤ s.span ∧ out.Holds s.fileOffset body
  cleared : ∀ i, s.fileOffset + s.encodedSize ≤ i → i < s.fileOffset + s.span → out[i]? = some 0

namespace Module

variable {m : Module} {type method : Text} {s : PatchSummary} {out : Bytes}

/-- only a signature that was read names a category with a default body -/
theorem signature_of_defaultBody {typeName : Text} {row : MethodRow} {body : List UInt8} :
    (MethodDescriptor.ofRow typeName row).returnCategory.defaultBody = .ok body ↔
      ∃ signature, row.signature = some signature ∧ signature.returnCategory.defaultBody = .ok body := by
  unfold MethodDescriptor.ofRow
  cases row.signature with
  | none => simp [ReturnCategory.defaultBody, ReturnCategory.defaultCode, ReturnCategory.defaultOpcodes]
  | some signature => simp

theorem patched_of_plan {r : Replacement} (h : m.plan type method = .ok r) :
    ∃ t row, Patched m t row type method r.summary (r.apply m.bytes) := by
  have hfits := fits_of_plan h
  obtain ⟨t, d, l, ht, hd, hl, hr⟩ := plan_eq_ok_iff.1 h
  obtain ⟨row, hrow, rfl⟩ := findMethod?_eq_some_iff.1 hd
  obtain ⟨hbody, hle, hs⟩ := replace_eq_ok_iff.1 hr
  obtain ⟨hrva, hoff, -, hread, hmore, -⟩ := locate_eq_ok_iff.1 hl
  rw [MethodDescriptor.rva_ofRow] at hrva hoff
  obtain ⟨signature, hsig, hdef⟩ := signature_of_defaultBody.1 hbody
  have hbytes := Replacement.getElem?_apply hfits
  have henc := hfits.encoded
  have hin := hfits.inside
  refine ⟨t, row, ?_⟩
  constructor
  case type => exact findType?_eq_some_iff.1 ht
  case method => exact hrow
  case descriptor => rw [hs]
  case address => exact hrva
  case offset => rw [hs]; exact hoff
  case header => rw [hs]; exact hread
  case moreSections => rw [hs]; exact hmore
  case span => rw [hs]; exact (BodyHeader.span_of_readAt hread).2
  case inside => exact hin
  case size => simp
  case frame => intro i hi; rw [hbytes, if_neg hi]
  case body =>
    refine ⟨signature, r.body, hsig, hdef, henc, hfits.body, fun i hi => ?_⟩
    have := hfits.body
    rw [hbytes, if_pos ⟨by simp [PatchSummary.overwritten], by simp [PatchSummary.overwritten, Span.stop]; omega⟩,
      if_pos (by omega), Nat.add_sub_cancel_left]
  case cleared =>
    intro i h1 h2
    rw [hbytes, if_pos ⟨by simp [PatchSummary.overwritten]; omega, h2⟩, if_neg (by omega)]

theorem plan_of_patched {t : TypeEntry} {row : MethodRow} (h : Patched m t row type method s out) :
    ∃ r, m.plan type method = .ok r ∧ s = r.summary ∧ out = r.apply m.bytes := by
  obtain ⟨signature, body, hsig, hdef, henc, hle, hholds⟩ := h.body
  obtain ⟨hpos, hspan⟩ := BodyHeader.span_of_readAt h.header
  have hin := h.inside
  have hs := h.span
  have hplan : m.plan type method = .ok ⟨s, body⟩ := by
    refine plan_eq_ok_iff.2 ⟨t, .ofRow t.fullName row, ⟨s.fileOffset, s.replaced⟩, findType?_eq_some_iff.2 h.type,
      findMethod?_eq_some_iff.2 ⟨row, h.method, rfl⟩, locate_eq_ok_iff.2 ?_, replace_eq_ok_iff.2 ?_⟩
    · rw [MethodDescriptor.rva_ofRow]
      exact ⟨h.address, h.offset, by simp only; omega, h.header, h.moreSections, by simp only; omega⟩
    · refine ⟨signature_of_defaultBody.2 ⟨signature, hsig, hdef⟩, by simp only; omega, ?_⟩
      simp only [hspan, ← hs, ← henc, ← h.descriptor]
  -- new body, zeros behind it and the frame leave no byte of `out` open
  refine ⟨⟨s, body⟩, hplan, rfl, Array.ext_getElem? fun i => ?_⟩
  rw [Replacement.getElem?_apply (fits_of_plan hplan)]
  split_ifs with hm hi
  · simp only [PatchSummary.overwritten, Span.Mem, Span.stop] at hm hi
    have := hholds (i - s.fileOffset) (by omega)
    rw [← this, Nat.add_sub_cancel' hm.1]
  · exact h.cleared i (by simpa using hi) hm.2
  · exact h.frame i hm

end Module

theorem patchBytes_of_ofBytes {b : Bytes} {m : Module} (h : Module.ofBytes b Module.inMemory = .ok m)
    (type method : Text) : patchBytes b type method = m.patch type method b := by
  simp only [patchBytes, h]

theorem patchBytes_eq_ok_iff {b out : Bytes} {type method : Text} {s : PatchSummary} :
    patchBytes b type method = (.ok s, out) ↔ ∃ m r, Module.ofBytes b Module.inMemory = .ok m ∧
      m.plan type method = .ok r ∧ s = r.summary ∧ out = r.apply b := by
  refine ⟨fun h => ?_, fun h => ?_⟩
  · unfold patchBytes at h
    split at h
    · cases h
    · rename_i m hm
      obtain ⟨r, hr⟩ := (Module.patch_eq_ok_iff (by rw [Module.bytes_of_ofBytes hm])).1 h
      exact ⟨m, r, hm, hr⟩
  · obtain ⟨m, r, hm, hr⟩ := h
    rw [patchBytes_of_ofBytes hm]
    exact (Module.patch_eq_ok_iff (by rw [Module.bytes_of_ofBytes hm])).2 ⟨r, hr⟩

/-! ### The small module -/

namespace Small

/-- `F` gets a body that returns zero -/
def patchF : { r : Replacement // opened.plan (Text.ascii "C") (Text.ascii "F") = .ok r } where
  val :=
    ⟨⟨.ofRow (Text.ascii "C") ⟨1, 0x1010, 0, 0x16, Text.ascii "F", some ⟨.managed, false, 0, 0, 8, .int32⟩⟩, 360,
      ⟨.tiny, 1, 4, 0, false⟩, 5, 3⟩, [0x0A, 0x16, 0x2A]⟩
  property := by decide +kernel

/-- `G` gets a body that only returns -/
def patchG : { r : Replacement // opened.plan (Text.ascii "C") (Text.ascii "G") = .ok r } where
  val :=
    ⟨⟨.ofRow (Text.ascii "C") ⟨2, 0x1020, 0, 6, Text.ascii "G", some ⟨.managed, true, 0, 0, 1, .void⟩⟩, 376,
      ⟨.fat, 12, 4, 0x13, false⟩, 16, 2⟩, [0x06, 0x2A]⟩
  property := by decide +kernel

theorem patchBytes_F :
    patchBytes file (Text.ascii "C") (Text.ascii "F") = (.ok patchF.1.summary, patchF.1.apply file) :=
  patchBytes_eq_ok_iff.2 ⟨opened, patchF, ofBytes_file, patchF.2, rfl, rfl⟩

theorem patchBytes_G :
    patchBytes file (Text.ascii "C") (Text.ascii "G") = (.ok patchG.1.summary, patchG.1.apply file) :=
  patchBytes_eq_ok_iff.2 ⟨opened, patchG, ofBytes_file, patchG.2, rfl, rfl⟩

end Small

/-- **A patch does what it says or nothing.** A failure leaves the buffer as it was. A success is exactly this: the
buffer keeps its size, the span of the first method with that name in the first type with that full name holds the
default body for its return category and then zeros, and no other byte has changed. -/
theorem patched_iff (b : Bytes) (type method : Text) :
    (∀ e, (patchBytes b type method).1 = .error e → (patchBytes b type method).2 = b) ∧
      ∀ s out, patchBytes b type method = (.ok s, out) ↔
        ∃ m t row, Module.ofBytes b Module.inMemory = .ok m ∧ m.bytes = b ∧ Patched m t row type method s out := by
  refine ⟨fun e h => ?_, fun s out => ?_⟩
  · unfold patchBytes at h ⊢
    split at h
    · rfl
    · exact Module.patch_of_error h
  · rw [patchBytes_eq_ok_iff]
    refine ⟨fun h => ?_, fun h => ?_⟩
    · obtain ⟨m, r, hm, hr, rfl, rfl⟩ := h
      have hb := Module.bytes_of_ofBytes hm
      obtain ⟨t, row, h⟩ := Module.patched_of_plan hr
      rw [hb] at h
      exact ⟨m, t, row, hm, hb, h⟩
    · obtain ⟨m, t, row, hm, hb, h⟩ := h
      obtain ⟨r, hr, hs, hout⟩ := Module.plan_of_patched h
      rw [hb] at hout
      exact ⟨m, r, hm, hr, hs, hout⟩

/-- `F` of the small module is patched, and a method that it does not have leaves it as it is -/
theorem patched_iff_small :
    (patchBytes Small.file (Text.ascii "C") (Text.ascii "H")).2 = Small.file ∧
      ∃ m t row, Module.ofBytes Small.file Module.inMemory = .ok m ∧ m.bytes = Small.file ∧
        Patched m t row (Text.ascii "C") (Text.ascii "F") Small.patchF.1.summary (Small.patchF.1.apply Small.file) := by
  have hfail : (patchBytes Small.file (Text.ascii "C") (Text.ascii "H")).1
      = .error (.methodNotFound (Text.ascii "C") (Text.ascii "H")) := by
    have hplan : Small.opened.plan (Text.ascii "C") (Text.ascii "H")
        = .error (.methodNotFound (Text.ascii "C") (Text.ascii "H")) := by decide
    rw [patchBytes_of_ofBytes Small.ofBytes_file]
    exact Module.patch_of_plan_error rfl hplan
  exact ⟨(patched_iff Small.file (Text.ascii "C") (Text.ascii "H")).1 _ hfail,
    ((patched_iff Small.file (Text.ascii "C") (Text.ascii "F")).2 _ _).1 Small.patchBytes_F⟩

end CilPatch
