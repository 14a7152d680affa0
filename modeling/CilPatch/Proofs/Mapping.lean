/-
Which offset of the file an address is loaded from.

`MapsTo` says it over the section table as a list: of all sections whose range covers the address, the first one counts.
`fileOffset?_eq_some_iff` and `fileOffset?_eq_none_iff` say the same of the lookup.
-/
import Mathlib.Tactic
import CilPatch.Pe.Section

namespace CilPatch.Pe

/-- the address lies in the range of the section, which is as long as the larger of its sizes -/
def Section.Covers (s : Section) (rva : Nat) : Prop :=
  s.virtualAddress ≤ rva ∧ rva < s.virtualAddress + max s.virtualSize s.rawSize

/-- the address is loaded from the offset, counted with 32 bits, by the first section that covers it -/
def MapsTo (sections : List Section) (rva off : Nat) : Prop :=
  ∃ before s after, sections = before ++ s :: after ∧ s.Covers rva ∧ (∀ t ∈ before, ¬ t.Covers rva) ∧
    off = (rva - s.virtualAddress + s.rawPointer) % 0x100000000

variable {sections : List Section} {rva off : Nat}

theorem Section.contains_eq_false_iff {s : Section} : s.contains rva = false ↔ ¬ s.Covers rva := by
  rw [← Bool.not_eq_true]
  exact not_congr contains_iff

theorem fileOffset?_eq_some_iff : fileOffset? sections rva = some off ↔ MapsTo sections rva off := by
  rw [fileOffset?, Option.map_eq_some_iff]
  constructor
  · rintro ⟨s, hs, rfl⟩
    obtain ⟨hcovers, before, after, hsplit, hbefore⟩ := List.find?_eq_some_iff_append.1 hs
    refine ⟨before, s, after, hsplit, Section.contains_iff.1 hcovers, ?_, rfl⟩
    intro t ht
    exact Section.contains_eq_false_iff.1 (by simpa using hbefore t ht)
  · rintro ⟨before, s, after, hsplit, hcovers, hbefore, rfl⟩
    refine ⟨s, List.find?_eq_some_iff_append.2 ⟨Section.contains_iff.2 hcovers, before, after, hsplit, ?_⟩, rfl⟩
    intro t ht
    simpa using Section.contains_eq_false_iff.2 (hbefore t ht)

theorem fileOffset?_eq_none_iff : fileOffset? sections rva = none ↔ ∀ s ∈ sections, ¬ s.Covers rva := by
  rw [fileOffset?, Option.map_eq_none_iff, owner?, List.find?_eq_none]
  constructor
  · intro h s hs hcovers
    exact h s hs (Section.contains_iff.2 hcovers)
  · intro h s hs hcontains
    exact h s hs (Section.contains_iff.1 hcontains)

end CilPatch.Pe
