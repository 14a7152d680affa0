/-
Two files that cannot be told apart by opening them.

What opening consults tells also where to look next, so a file that has the same bytes there is consulted in the same
places. Looking alike is therefore a relation between files, not only between a file and an open module, and no answer
about types and methods can depend on the bytes that it leaves open.

- `Module.consulted_of_looksLike`: the consulted spans are those of the other file;
- `ofBytes_lookalike`: the second file opens with the same headers, the same metadata and the same answers.
-/
import Mathlib.Tactic
import CilPatch.Proofs.Runs

namespace CilPatch

open Bytes (AgreeOn)

variable {a b : Bytes}

/-! ## The same places -/

theorem Pe.Image.consulted_of_agree {image : Image} (h : ∀ s ∈ image.consulted a, AgreeOn a b s) :
    image.consulted b = image.consulted a := by
  have hlfanew : b.leAt 4 0x3C = a.leAt 4 0x3C := by
    refine (Bytes.leAt_congr (h _ ?_)).symm
    simp [consulted]
  have hcount : b.leAt 4 (a.leAt 4 0x3C + 24 + OptionalHeader.directoryCountOffset image.pe32Plus)
      = a.leAt 4 (a.leAt 4 0x3C + 24 + OptionalHeader.directoryCountOffset image.pe32Plus) := by
    refine (Bytes.leAt_congr (h _ ?_)).symm
    simp [consulted]
  have hoptional : b.leAt 2 (a.leAt 4 0x3C + 20) = a.leAt 2 (a.leAt 4 0x3C + 20) := by
    refine (Bytes.leAt_congr (h _ ?_)).symm
    simp [consulted]
  simp only [consulted, hlfanew, hcount, hoptional]

theorem Metadata.consulted_of_agree {sections : List Pe.Section} {cliRva : Nat}
    (h : ∀ s ∈ consulted a sections cliRva, AgreeOn a b s) :
    consulted b sections cliRva = consulted a sections cliRva := by
  unfold consulted at h ⊢
  cases hcli : Pe.fileOffset? sections cliRva with
  | none => rfl
  | some cli =>
    rw [hcli] at h
    -- both numbers of the entry lie in the span of eight bytes
    have hentry : AgreeOn a b ⟨cli + 8, 8⟩ := h _ List.mem_cons_self
    have hrva : b.leAt 4 (cli + 8) = a.leAt 4 (cli + 8) :=
      (Bytes.leAt_congr (hentry.mono (Bytes.Span.sub_mk le_rfl (by simp [Bytes.Span.stop])))).symm
    have hsize : b.leAt 4 (cli + 12) = a.leAt 4 (cli + 12) :=
      (Bytes.leAt_congr (hentry.mono (Bytes.Span.sub_mk (by simp) (by simp [Bytes.Span.stop])))).symm
    simp only [rootSpan, hrva, hsize]

namespace Module

variable {m : Module}

/-- a file that looks like the module is consulted in the same places -/
theorem consulted_of_looksLike (h : m.LooksLike b) (origin : Text) :
    ({ m with bytes := b, origin := origin } : Module).consulted = m.consulted := by
  obtain ⟨-, hag⟩ := h
  have himage : m.image.consulted b = m.image.consulted m.bytes :=
    Pe.Image.consulted_of_agree fun s hs => hag s (List.mem_append_left _ hs)
  have hmetadata : Metadata.consulted b m.image.sections m.image.cliHeader.rva
      = Metadata.consulted m.bytes m.image.sections m.image.cliHeader.rva :=
    Metadata.consulted_of_agree fun s hs => hag s (List.mem_append_right _ hs)
  simp only [consulted, himage, hmetadata]

/-! ## The same answers -/

variable {m' : Module}

theorem findType?_congr (h : m'.metadata = m.metadata) (fullName : Text) :
    m'.findType? fullName = m.findType? fullName := by
  rw [findType?, findType?, h]

theorem findMethod?_congr (h : m'.metadata = m.metadata) (t : Metadata.TypeEntry) (name : Text) :
    m'.findMethod? t name = m.findMethod? t name := by
  rw [findMethod?, findMethod?, h]

theorem methods_congr (h : m'.metadata = m.metadata) (t : Metadata.TypeEntry) : m'.methods t = m.methods t := by
  rw [methods, methods, h]

end Module

/-- **Opening depends on the consulted bytes only.** When a file opens, every file of the same size with the same bytes
in the consulted spans opens too, wherever it came from. Both have the same headers, the same metadata and the same
consulted spans, and they answer every question for a type or a method in the same way. -/
theorem ofBytes_lookalike (a b : Bytes) (origin origin' : Text) (m : Module) (hm : Module.ofBytes a origin = .ok m)
    (hsize : b.size = a.size) (hag : ∀ s ∈ m.consulted, a.AgreeOn b s) :
    ∃ m', Module.ofBytes b origin' = .ok m' ∧ m'.image = m.image ∧ m'.metadata = m.metadata ∧
      m'.consulted = m.consulted ∧ (∀ fullName, m'.findType? fullName = m.findType? fullName) ∧
      (∀ t name, m'.findMethod? t name = m.findMethod? t name) ∧ ∀ t, m'.methods t = m.methods t := by
  obtain rfl := Module.bytes_of_ofBytes hm
  have hlike : m.LooksLike b := ⟨hsize, hag⟩
  refine ⟨_, Module.ofBytes_of_looksLike hm hlike origin', rfl, rfl, Module.consulted_of_looksLike hlike origin', ?_⟩
  exact ⟨Module.findType?_congr rfl, Module.findMethod?_congr rfl, Module.methods_congr rfl⟩

/-- the small file with another body opens as the same module under another name -/
theorem ofBytes_lookalike_small :
    let copy := Small.patchF.1.apply Small.file
    copy[360]? = some 0x0A ∧ Small.file[360]? = some 0x12 ∧ ∃ m', Module.ofBytes copy (Text.ascii "copy") = .ok m' ∧
      m'.image = Small.opened.image ∧ m'.metadata = Small.opened.metadata ∧ m'.consulted = Small.opened.consulted ∧
      (∀ fullName, m'.findType? fullName = Small.opened.findType? fullName) ∧
      (∀ t name, m'.findMethod? t name = Small.opened.findMethod? t name) ∧
      ∀ t, m'.methods t = Small.opened.methods t := by
  intro copy
  have hfits : Small.patchF.1.Fits Small.opened.bytes.size := Module.fits_of_plan Small.patchF.2
  refine ⟨Replacement.holds_apply hfits 0 (by decide), by decide +kernel, ?_⟩
  refine ofBytes_lookalike Small.file copy Module.inMemory _ Small.opened Small.ofBytes_file ?_ fun s hs => ?_
  · exact Replacement.size_apply _ _
  · exact Replacement.agreeOn_apply hfits (Small.patchF_misses s hs)

end CilPatch
