/-
When a module survives a patch.

A patch keeps to the span of the body that it replaces, but nothing keeps that span away from the headers and the
metadata: a header may claim more code than there is in front of them.

- `ofBytes_patched`: while the bytes that opening reads are the same, the patched file opens as the same module, and the
  names lead to the same method;
- `Module.ofBytes_of_cleared`: with the start of the metadata root cleared it does not open any more;
- `ofBytes_patched_destroyed`: a file that is destroyed in this way.
-/
import CilPatch.Proofs.Lookalike

namespace CilPatch

open Bytes (Span AgreeOn)

/-! ## The same module afterwards -/

/-- **A module survives a patch that keeps what opening reads.** Then the patched file opens with the same headers and
the same metadata, and the first type and method with the names are those that were patched. -/
theorem ofBytes_patched (b out : Bytes) (type method : Text) (m : Module) (s : PatchSummary) (origin : Text)
    (hm : Module.ofBytes b Module.inMemory = .ok m) (hp : patchBytes b type method = (.ok s, out))
    (hag : ∀ c ∈ m.consulted, b.AgreeOn out c) :
    ∃ m' t, Module.ofBytes out origin = .ok m' ∧ m'.image = m.image ∧ m'.metadata = m.metadata ∧
      m.findType? type = some t ∧ m.findMethod? t method = some s.method ∧
      m'.findType? type = some t ∧ m'.findMethod? t method = some s.method := by
  obtain ⟨m₀, r, hm₀, hr, rfl, rfl⟩ := patchBytes_eq_ok_iff.1 hp
  cases hm.symm.trans hm₀
  obtain ⟨t, d, l, ht, hd, -, hreplace⟩ := Module.plan_eq_ok_iff.1 hr
  have hmethod : r.summary.method = d := by rw [(Module.replace_eq_ok_iff.1 hreplace).2.2]
  obtain ⟨m', hm', himage, hmetadata, -, htypes, hmethods, -⟩ :=
    ofBytes_lookalike b (r.apply b) Module.inMemory origin m hm (Replacement.size_apply r b) hag
  rw [hmethod]
  exact ⟨m', t, hm', himage, hmetadata, ht, hd, (htypes type).trans ht, (hmethods t method).trans hd⟩

/-- the new body of `F` stands beside what opening reads -/
theorem ofBytes_patched_small : ∃ m' t, Module.ofBytes (Small.patchF.1.apply Small.file) (Text.ascii "out") = .ok m' ∧
    m'.image = Small.opened.image ∧ m'.metadata = Small.opened.metadata ∧
    Small.opened.findType? (Text.ascii "C") = some t ∧
    Small.opened.findMethod? t (Text.ascii "F") = some Small.patchF.1.summary.method ∧
    m'.findType? (Text.ascii "C") = some t ∧
    m'.findMethod? t (Text.ascii "F") = some Small.patchF.1.summary.method := by
  have hfits : Small.patchF.1.Fits Small.opened.bytes.size := Module.fits_of_plan Small.patchF.2
  exact ofBytes_patched Small.file (Small.patchF.1.apply Small.file) (Text.ascii "C") (Text.ascii "F") Small.opened
    Small.patchF.1.summary (Text.ascii "out") Small.ofBytes_file Small.patchBytes_F
    fun c hc => Replacement.agreeOn_apply hfits (Small.patchF_misses c hc)

/-! ## Files that do not open any more -/

namespace Metadata

/-- a root that starts with another byte does not start with its signature -/
theorem ofRoot_of_head {root : Bytes} (h : root[0]? ≠ some 0x42) : ofRoot root = .error .badRootSignature := by
  have hne : root.u32? 0 ≠ some 0x424A5342 := by
    intro hsig
    obtain ⟨hle, hvalue⟩ := Bytes.eq_leAt_of_read? hsig
    obtain ⟨x, hx⟩ : ∃ x, root[0]? = some x := ⟨_, Array.getElem?_eq_getElem (by omega)⟩
    rw [Bytes.leAt, Array.getD_eq_getD_getElem?, hx, Option.getD_some] at hvalue
    have hbyte : x.toNat = 0x42 := by
      have := x.toNat_lt
      omega
    exact h (by rw [hx, UInt8.toNat_inj.1 (hbyte.trans (by decide : 0x42 = (0x42 : UInt8).toNat))])
  rw [ofRoot, if_pos hne]

theorem parse_of_locateRoot {file root : Bytes} {sections : List Pe.Section} {cliRva : Nat}
    {answer : Except ParseError Metadata} (h : locateRoot file sections cliRva = .ok root)
    (hroot : ofRoot root = answer) : parse file sections cliRva = answer := by
  rw [parse, h]
  exact hroot

/-- with its start cleared the root is not taken for one -/
theorem parse_of_cleared {a b : Bytes} {sections : List Pe.Section} {cliRva cli offset size : Nat} {md : Metadata}
    (h : parse a sections cliRva = .ok md) (hsize : b.size = a.size)
    (hcli : Pe.fileOffset? sections cliRva = some cli) (hroot : rootSpan a sections cli = [⟨offset, size⟩])
    (hentry : AgreeOn a b ⟨cli + 8, 8⟩) (hzero : b[offset]? = some 0) :
    parse b sections cliRva = .error .badRootSignature := by
  obtain ⟨root, hlocate, -⟩ := parse_eq_ok_iff.1 h
  obtain ⟨h0, cli', rva, size', offset', hcli', hrva, hlength, hoff, hslice⟩ := locateRoot_eq_ok_iff.1 hlocate
  cases hcli.symm.trans hcli'
  obtain ⟨rfl, rfl⟩ : offset' = offset ∧ size' = size := by
    rw [rootSpan, ← (Bytes.eq_leAt_of_read? hrva).2, hoff, ← (Bytes.eq_leAt_of_read? hlength).2] at hroot
    simpa using hroot
  have hin : offset' + size' ≤ b.size := by
    unfold Bytes.slice? at hslice
    split_ifs at hslice with hle
    rw [hsize]
    exact hle
  refine parse_of_locateRoot
    (locateRoot_eq_ok_iff.2 ⟨h0, cli, rva, size', offset', hcli, ?_, ?_, hoff, if_pos hin⟩) (ofRoot_of_head ?_)
  · rw [← hrva]
    exact Bytes.read?_congr hsize (hentry.mono (Bytes.Span.sub_mk le_rfl (by simp [Span.stop])))
  · rw [← hlength]
    exact Bytes.read?_congr hsize (hentry.mono (Bytes.Span.sub_mk (by simp) (by simp [Span.stop])))
  · rw [Array.getElem?_extract]
    split_ifs
    · rw [Nat.add_zero, hzero]
      decide
    · decide

end Metadata

namespace Module

/-- a patch that clears the start of the metadata root, and keeps the headers and the place of the root, leaves a file
that does not open -/
theorem ofBytes_of_cleared {m : Module} {a b : Bytes} {cli offset size : Nat} {source : Text}
    (hm : ofBytes a source = .ok m) (hsize : b.size = a.size) (himage : ∀ s ∈ m.image.consulted a, AgreeOn a b s)
    (hcli : m.image.fileOffset? m.image.cliHeader.rva = some cli)
    (hroot : Metadata.rootSpan a m.image.sections cli = [⟨offset, size⟩])
    (hentry : AgreeOn a b ⟨cli + 8, 8⟩) (hzero : b[offset]? = some 0) (origin : Text) :
    ofBytes b origin = .error ⟨origin, Metadata.ParseError.badRootSignature.message⟩ := by
  obtain ⟨-, -, hparse, hmetadata⟩ := ofBytes_eq_ok_iff.1 hm
  have hparse' := Pe.Image.parse_of_agree hparse hsize himage
  have hmetadata' := Metadata.parse_of_cleared hmetadata hsize hcli hroot hentry hzero
  simp only [ofBytes, hparse', hmetadata']

end Module

/-! ### A body that reaches into the metadata -/

namespace Small

/-- the body of `G` claims more code than there is in front of the metadata -/
def overlong : Bytes := file.write 380 (Bytes.toLE 4 100)

def openedLong : Module := { opened with bytes := overlong }

def patchLong : { r : Replacement // openedLong.plan (Text.ascii "C") (Text.ascii "G") = .ok r } where
  val :=
    ⟨⟨.ofRow (Text.ascii "C") ⟨2, 0x1020, 0, 6, Text.ascii "G", some ⟨.managed, true, 0, 0, 1, .void⟩⟩, 376,
      ⟨.fat, 12, 100, 0x13, false⟩, 112, 2⟩, [0x06, 0x2A]⟩
  property := by decide +kernel

theorem looksLike_overlong : opened.LooksLike overlong := by
  have hfit : 380 + (Bytes.toLE 4 100).length ≤ file.size := by decide +kernel
  have hmisses : ∀ c ∈ opened.consulted, Span.Disjoint ⟨380, (Bytes.toLE 4 100).length⟩ c := by
    rw [consulted.2]
    decide
  exact ⟨Bytes.size_write _ _ _, fun c hc => Bytes.agreeOn_write hfit (hmisses c hc)⟩

theorem ofBytes_overlong : Module.ofBytes overlong Module.inMemory = .ok openedLong :=
  Module.ofBytes_of_looksLike ofBytes_file looksLike_overlong Module.inMemory

theorem patchBytes_overlong : patchBytes overlong (Text.ascii "C") (Text.ascii "G") =
    (.ok patchLong.1.summary, patchLong.1.apply overlong) :=
  patchBytes_eq_ok_iff.2 ⟨openedLong, patchLong, ofBytes_overlong, patchLong.2, rfl, rfl⟩

theorem fits_patchLong : patchLong.1.Fits overlong.size := by
  have hbytes : openedLong.bytes = overlong := by rw [openedLong]
  rw [← hbytes]
  exact Module.fits_of_plan patchLong.2

/-- the headers and the CLI header stand in front of the bodies, and the root behind them -/
theorem places : (∀ c ∈ image.1.consulted file, c.stop ≤ 376) ∧ Metadata.rootSpan file sections 344 = [⟨408, 162⟩] := by
  decide +kernel

end Small

/-- a patch can destroy the module: the zeros behind the new body of `G` cover the start of the metadata -/
theorem ofBytes_patched_destroyed :
    patchBytes Small.overlong (Text.ascii "C") (Text.ascii "G") =
      (.ok Small.patchLong.1.summary, Small.patchLong.1.apply Small.overlong) ∧
    Module.ofBytes (Small.patchLong.1.apply Small.overlong) Module.inMemory =
      .error ⟨Module.inMemory, Text.ascii "bad metadata root signature"⟩ := by
  refine ⟨Small.patchBytes_overlong, ?_⟩
  have hagree (c : Span) (hc : c ∈ Small.opened.consulted) (hd : Small.patchLong.1.summary.overwritten.Disjoint c) :
      AgreeOn Small.file (Small.patchLong.1.apply Small.overlong) c :=
    (Small.looksLike_overlong.2 c hc).trans (Replacement.agreeOn_apply Small.fits_patchLong hd)
  obtain ⟨hheaders, hroot⟩ := Small.places
  have hmem : ⟨352, 8⟩ ∈ Small.opened.consulted := by
    rw [Small.consulted.2]
    decide
  refine Module.ofBytes_of_cleared Small.ofBytes_file ?_ ?_ (by decide) hroot (hagree _ hmem (by decide)) ?_ _
  · exact (Replacement.size_apply _ _).trans (Bytes.size_write _ _ _)
  · intro c hc
    exact hagree c (List.mem_append_left _ hc) (Bytes.Span.disjoint_iff.2 (.inr (.inr (.inr (hheaders c hc)))))
  · rw [Replacement.getElem?_apply Small.fits_patchLong, if_pos (by decide), if_neg (by decide)]

end CilPatch
