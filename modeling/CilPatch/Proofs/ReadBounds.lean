/-
Reads stay inside the buffer, and fail only where there is too little to read.

A read that fails closed on a short file is worth what its bounds check is worth. The check works with words, in which
the sum of an offset and a size may be small again, so it subtracts instead; here it decides what the unbounded sum
decides.

- `lacks_iff`: the check, for all words;
- `loads_eq`, `search_eq`: bytes that are all there are taken one after the other, and none behind them;
- `read?_eq_some_iff_holds`, `slice?_eq_some_iff_holds`, `cstring?_eq_some_iff_longestRun`: what the answers are, said
  by what the buffer holds;
- `reads_exact`: the main result.
-/
import CilPatch.Bytes.Checked
import CilPatch.Proofs.BlobEntries
import CilPatch.Proofs.Consistency

namespace CilPatch

namespace Bytes

variable {b s : Bytes} {off n width : Nat} {text : Text}

/-! ## Answers -/

theorem isSome_read?_iff : (b.read? width off).isSome ↔ off + width ≤ b.size := by
  unfold read?
  split_ifs with h
  · exact iff_of_true rfl h
  · exact iff_of_false Bool.false_ne_true h

theorem isSome_slice?_iff : (b.slice? off n).isSome ↔ off + n ≤ b.size := by
  unfold slice?
  split_ifs with h
  · exact iff_of_true rfl h
  · exact iff_of_false Bool.false_ne_true h

/-- a number is read where its little-endian bytes stand -/
theorem read?_eq_some_iff_holds :
    b.read? width off = some n ↔ off + width ≤ b.size ∧ n < limit width ∧ b.Holds off (toLE width n) := by
  constructor
  · intro h
    obtain ⟨hle, rfl⟩ := eq_leAt_of_read? h
    exact ⟨hle, leAt_lt b width off, holds_leAt b width off hle⟩
  · rintro ⟨hle, hlt, hholds⟩
    have hlength := length_toLE width n
    have hbytes : b.extract off (off + width) = (toLE width n).toArray := by
      have := hholds.extract_of_le (by rwa [hlength])
      rwa [hlength] at this
    refine read?_eq_some_iff.2 ⟨hle, ?_⟩
    rw [hbytes, ofLE_toLE, Nat.mod_eq_of_lt hlt]

/-- a function that keeps the numbers of a width keeps the number that is read -/
theorem map_read?_of_lt {f : Nat → Nat} (hf : ∀ n, n < limit width → f n = n) :
    (b.read? width off).map f = b.read? width off := by
  cases h : b.read? width off with
  | none => rfl
  | some n =>
    obtain ⟨-, hlt, -⟩ := read?_eq_some_iff_holds.1 h
    rw [Option.map_some, hf n hlt]

theorem slice?_eq_some_iff_holds :
    b.slice? off n = some s ↔ off + n ≤ b.size ∧ s.size = n ∧ b.Holds off s.toList := by
  rw [slice?_eq_some_iff]
  constructor
  · rintro ⟨hle, rfl⟩
    exact ⟨hle, length_extract hle, b.holds_extract off n⟩
  · rintro ⟨hle, rfl, hholds⟩
    exact ⟨hle, (hholds.extract_of_le hle).symm⟩

/-! ## Strings -/

/-- the text stands at the offset with a NUL behind it, and no longer text without a NUL stands there -/
structure LongestRun (b : Bytes) (off : Nat) (text : Text) : Prop where
  terminated : b.Holds off (text ++ [0])
  nulFree : 0 ∉ text
  longest : ∀ run : Text, 0 ∉ run → b.Holds off run → run <+: text

theorem isSome_cstring?_iff : (b.cstring? off).isSome ↔ ∃ i, off ≤ i ∧ b[i]? = some 0 := by
  rw [cstring?, Option.isSome_map, ← not_iff_not, Bool.not_eq_true, Option.isSome_eq_false_iff,
    Option.isNone_iff_eq_none, terminator?_eq_none_iff]
  simp only [not_exists, not_and]

/-- a string that is read stands in the buffer with its terminator -/
theorem holds_of_cstring? (h : b.cstring? off = some text) : b.Holds off (text ++ [0]) := by
  obtain ⟨stop, hstop, rfl⟩ := cstring?_eq_some_iff.1 h
  obtain ⟨hle, hzero, -⟩ := terminator?_eq_some_iff.1 hstop
  obtain ⟨k, rfl⟩ := Nat.exists_eq_add_of_le hle
  have hsize : off + k < b.size := (Array.getElem?_eq_some_iff.1 hzero).1
  refine holds_append.2 ⟨b.holds_extract off k, fun i hi => ?_⟩
  obtain rfl : i = 0 := by simpa using hi
  rw [length_extract hsize.le, Nat.add_zero, hzero]
  rfl

/-- a text with a NUL behind it is the longest one without -/
theorem LongestRun.of_holds (h : b.Holds off (text ++ [0])) (h0 : 0 ∉ text) : b.LongestRun off text where
  terminated := h
  nulFree := h0
  longest := by
    intro run hrun hholds
    -- both stand at the offset, so one of them starts with the other
    rcases List.prefix_or_prefix_of_prefix (holds_iff_drop.1 hholds) (holds_iff_drop.1 h) with hshort | hlong
    · rcases List.prefix_concat_iff.1 hshort with rfl | hshort
      · exact absurd (List.mem_concat_self) hrun
      · exact hshort
    · exact absurd (hlong.subset List.mem_concat_self) hrun

theorem cstring?_eq_some_iff_longestRun : b.cstring? off = some text ↔ b.LongestRun off text := by
  constructor
  · intro h
    exact .of_holds (holds_of_cstring? h) (zero_notMem_of_cstring? h)
  · intro h
    exact cstring?_of_holds h.nulFree h.terminated

end Bytes

namespace Checked.View

variable {v : View} {off : UInt64} {n : Nat}

/-! ## The check -/

theorem toNat_size (v : View) : v.size.toNat = v.bytes.size := UInt64.toNat_ofNat_of_lt' v.size_lt

/-- inside the buffer, the difference is what is left of it -/
theorem toNat_size_sub (h : off.toNat ≤ v.bytes.size) : (v.size - off).toNat = v.bytes.size - off.toNat := by
  rw [UInt64.toNat_sub_of_le _ _ (UInt64.le_iff_toNat_le.2 (by rwa [toNat_size])), toNat_size]

/-- the words decide what the unbounded sum decides, also where the sum is no word -/
theorem lacks_iff {n : UInt64} : v.lacks off n = true ↔ v.bytes.size < off.toNat + n.toNat := by
  unfold lacks
  rw [Bool.or_eq_true, decide_eq_true_iff, decide_eq_true_iff, UInt64.lt_iff_toNat_lt, UInt64.lt_iff_toNat_lt,
    toNat_size]
  rcases Nat.lt_or_ge v.bytes.size off.toNat with hpast | hin
  · exact iff_of_true (.inl hpast) (by omega)
  · rw [toNat_size_sub hin]
    omega

theorem lacks_eq_false_iff {n : UInt64} : v.lacks off n = false ↔ off.toNat + n.toNat ≤ v.bytes.size := by
  rw [← not_iff_not, Bool.not_eq_false, lacks_iff, not_le]

/-! ## Steps -/

/-- the next offset inside a buffer or right behind it is a word again -/
theorem toNat_succ (h : off.toNat < v.bytes.size) : (off + 1).toNat = off.toNat + 1 := by
  have : v.bytes.size < 0x10000000000000000 := v.size_lt
  rw [UInt64.toNat_add, UInt64.toNat_one, Nat.mod_eq_of_lt (by omega)]

theorem load_of_lt (h : off.toNat < v.bytes.size) : v.load off = .ok v.bytes[off.toNat] := by
  rw [load, Array.getElem?_eq_getElem h]

theorem loads_eq (h : off.toNat + n ≤ v.bytes.size) :
    v.loads n off = .ok (v.bytes.extract off.toNat (off.toNat + n)).toList := by
  induction n generalizing off with
  | zero => simp [loads, pure, Except.pure]
  | succ n ih =>
    have hlt : off.toNat < v.bytes.size := by omega
    have hnext := toNat_succ hlt
    rw [loads, load_of_lt hlt, Bytes.toList_extract_succ _ _ hlt]
    have hrest : v.loads n (off + 1) = _ := ih (by omega)
    simp only [bind, Except.bind, hrest, hnext]
    rfl

/-- the search ends at the terminator, or with the last byte of the buffer -/
theorem search_eq (h : off.toNat + n = v.bytes.size) :
    v.search n off = .ok ((v.bytes.terminator? off.toNat).map UInt64.ofNat) := by
  induction n generalizing off with
  | zero =>
    rw [Bytes.terminator?, dif_neg (by omega)]
    rfl
  | succ n ih =>
    have hlt : off.toNat < v.bytes.size := by omega
    have hnext := toNat_succ hlt
    rw [search, load_of_lt hlt, Bytes.terminator?, dif_pos hlt]
    simp only [bind, Except.bind]
    split_ifs with hz
    · rw [Option.map_some, UInt64.ofNat_toNat]
      rfl
    · rw [ih (by omega), hnext]

/-! ## Reads -/

theorem read_eq (v : View) (off width : UInt64) : v.read off width = .ok (v.bytes.read? width.toNat off.toNat) := by
  unfold read
  split_ifs with hlacks
  · rw [lacks_iff] at hlacks
    rw [Bytes.read?, if_neg (not_le.2 hlacks)]
    rfl
  · have hle := lacks_eq_false_iff.1 (Bool.eq_false_iff.2 hlacks)
    rw [loads_eq hle, Bytes.read?_of_le hle, Bytes.leAt_eq_ofLE _ _ _ hle]
    rfl

/-- a number that is read is the same in a word in which it has room -/
theorem map_read_eq (v : View) (off width : UInt64) {word : Nat → UInt32}
    (hroom : ∀ n, n < Bytes.limit width.toNat → (word n).toNat = n) :
    (v.read off width >>= fun n => return n.map word).map (Option.map UInt32.toNat)
      = .ok (v.bytes.read? width.toNat off.toNat) := by
  rw [read_eq]
  change Except.ok (((v.bytes.read? width.toNat off.toNat).map word).map UInt32.toNat) = _
  rw [Option.map_map]
  exact congrArg _ (Bytes.map_read?_of_lt hroom)

theorem index?_eq (v : View) (off width : UInt64) : v.bytes.index? width.toNat off.toNat =
    if width = 2 then v.bytes.u16? off.toNat else v.bytes.u32? off.toNat := by
  have hwidth : width.toNat = 2 ↔ width = 2 := UInt64.toNat_inj (b := 2)
  rw [Bytes.index?, Bytes.u16?, Bytes.u32?]
  simp only [hwidth]
  split_ifs <;> rfl

/-- a number of 16 bits has zeros in the upper half of the word -/
theorem index_eq (v : View) (off width : UInt64) :
    (v.index off width).map (Option.map UInt32.toNat) = .ok (v.bytes.index? width.toNat off.toNat) := by
  rw [index?_eq]
  unfold index
  split_ifs
  · refine map_read_eq v off 2 fun n hn => ?_
    rw [UInt16.toNat_toUInt32, UInt16.toNat_ofNat_of_lt' hn]
  · exact map_read_eq v off 4 fun n hn => UInt32.toNat_ofNat_of_lt' hn

theorem slice_eq (v : View) (off n : UInt64) : v.slice off n = .ok (v.bytes.slice? off.toNat n.toNat) := by
  unfold slice
  split_ifs with hlacks
  · rw [lacks_iff] at hlacks
    rw [Bytes.slice?, if_neg (not_le.2 hlacks)]
    rfl
  · have hle := lacks_eq_false_iff.1 (Bool.eq_false_iff.2 hlacks)
    rw [part_of_le hle, Bytes.slice?, if_pos hle]
    rfl

theorem cstring_eq (v : View) (off : UInt64) : v.cstring off = .ok (v.bytes.cstring? off.toNat) := by
  unfold cstring
  split_ifs with hend
  · rw [UInt64.le_iff_toNat_le, toNat_size] at hend
    rw [Bytes.cstring?, Bytes.terminator?, dif_neg (not_lt.2 hend)]
    rfl
  · rw [UInt64.le_iff_toNat_le, toNat_size, not_le] at hend
    have hleft : off.toNat + (v.size - off).toNat = v.bytes.size := by
      rw [toNat_size_sub hend.le, Nat.add_sub_cancel' hend.le]
    rw [search_eq hleft, Bytes.cstring?]
    cases hstop : v.bytes.terminator? off.toNat with
    | none => rfl
    | some stop =>
      obtain ⟨hle, hzero, -⟩ := Bytes.terminator?_eq_some_iff.1 hstop
      have hsize : stop < v.bytes.size := (Array.getElem?_eq_some_iff.1 hzero).1
      have hword : (UInt64.ofNat stop).toNat = stop := UInt64.toNat_ofNat_of_lt' (hsize.trans v.size_lt)
      have hlength : (UInt64.ofNat stop - off).toNat = stop - off.toNat := by
        rw [UInt64.toNat_sub_of_le _ _ (UInt64.le_iff_toNat_le.2 (by rwa [hword])), hword]
      have hloads : v.loads (stop - off.toNat) off = _ := loads_eq (by omega)
      rw [Nat.add_sub_cancel' hle] at hloads
      simp only [Option.map_some, bind, Except.bind, hlength, hloads]
      rfl

/-! ## Main result -/

/-- a read no step of which goes wrong, and which has the answer wherever there is one -/
structure Exact {α : Type} (run : Except Fault (Option α)) (answer : Option α) (possible : Prop) (right : α → Prop) :
    Prop where
  run_eq : run = .ok answer
  isSome_iff : answer.isSome ↔ possible
  eq_some_iff : ∀ a, answer = some a ↔ possible ∧ right a

/-- **Reads stay inside the buffer, and fail only where there is too little to read.** Whatever the words for the offset
and the size, the checked steps give the answer of the plain read. A number or a run of bytes is read exactly when it
ends inside the buffer, in unbounded arithmetic, and is the number or the run that stands there. An index column is the
number of two bytes, with zeros before it, or of four. A string is read exactly when a NUL follows somewhere in the
buffer, and is the longest run of bytes without one. -/
theorem reads_exact (v : View) (off : UInt64) :
    (∀ width : UInt64, Exact (v.read off width) (v.bytes.read? width.toNat off.toNat)
      (off.toNat + width.toNat ≤ v.bytes.size) fun n =>
        n < Bytes.limit width.toNat ∧ v.bytes.Holds off.toNat (Bytes.toLE width.toNat n)) ∧
    (∀ n : UInt64, Exact (v.slice off n) (v.bytes.slice? off.toNat n.toNat) (off.toNat + n.toNat ≤ v.bytes.size)
      fun s => s.size = n.toNat ∧ v.bytes.Holds off.toNat s.toList) ∧
    (∀ width : UInt64, (v.index off width).map (Option.map UInt32.toNat)
        = .ok (v.bytes.index? width.toNat off.toNat) ∧
      v.bytes.index? width.toNat off.toNat = if width = 2 then v.bytes.u16? off.toNat else v.bytes.u32? off.toNat) ∧
    Exact (v.cstring off) (v.bytes.cstring? off.toNat) (∃ i, off.toNat ≤ i ∧ v.bytes[i]? = some 0)
      (v.bytes.LongestRun off.toNat) := by
  refine ⟨fun width => ?number, fun n => ?bytes, fun width => ?index, ?string⟩
  case number => exact ⟨read_eq v off width, Bytes.isSome_read?_iff, fun n => Bytes.read?_eq_some_iff_holds⟩
  case bytes => exact ⟨slice_eq v off n, Bytes.isSome_slice?_iff, fun s => Bytes.slice?_eq_some_iff_holds⟩
  case index => exact ⟨index_eq v off width, index?_eq v off width⟩
  case string =>
    refine ⟨cstring_eq v off, Bytes.isSome_cstring?_iff, fun text => ?_⟩
    rw [← Bytes.cstring?_eq_some_iff_longestRun]
    constructor
    · intro h
      exact ⟨Bytes.isSome_cstring?_iff.1 (Option.isSome_of_eq_some h), h⟩
    · rintro ⟨-, h⟩
      exact h

/-- two bytes and a string of two that ends with the buffer -/
def shortView : View := ⟨#[1, 2, 3, 0], by decide⟩

/-- at the largest offset, two bytes are refused although the words add up to less than the size; at the end of the
buffer there are no bytes and no string, and in front of it a string up to the last byte -/
theorem reads_exact_short : 0xFFFFFFFFFFFFFFFF + 2 ≤ shortView.size ∧
    shortView.read 0xFFFFFFFFFFFFFFFF 2 = .ok none ∧ shortView.read 1 2 = .ok (some 0x0302) ∧
    shortView.slice 4 0 = .ok (some #[]) ∧ shortView.cstring 4 = .ok none ∧
    shortView.cstring 1 = .ok (some [2, 3]) := by
  obtain ⟨hwrapped, -⟩ := reads_exact shortView 0xFFFFFFFFFFFFFFFF
  obtain ⟨hnumber, -, -, hstring⟩ := reads_exact shortView 1
  obtain ⟨-, hbytes, -, hend⟩ := reads_exact shortView 4
  have htext : shortView.bytes.LongestRun 1 [2, 3] := .of_holds (by decide) (by decide)
  have hnone : shortView.bytes.cstring? 4 = none := by
    rw [← Option.not_isSome_iff_eq_none]
    refine fun h => ?_
    obtain ⟨i, hi, hzero⟩ := hend.isSome_iff.1 h
    rw [Array.getElem?_eq_none hi] at hzero
    cases hzero
  refine ⟨by decide, (hwrapped 2).run_eq, (hnumber 2).run_eq, (hbytes 0).run_eq, ?_, ?_⟩
  · rw [hend.run_eq]
    exact congrArg _ hnone
  · rw [hstring.run_eq]
    exact congrArg _ (Bytes.cstring?_eq_some_iff_longestRun.2 htext)

end Checked.View

end CilPatch
