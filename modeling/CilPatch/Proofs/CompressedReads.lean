/-
When a compressed number can be read, and where the cursor stands afterwards.

The top bits of the lead byte announce how many bytes a number takes. Reading fails in three ways, and each leaves the
cursor somewhere else: bytes that were read in vain stay read.

- `Announces`, `Cursor.Stuck`: what the lead byte says, and the three ways to fail;
- `compressed_encode`, `Compressed.lt`, `Compressed.announces`: the forms of a number, and the one that is written;
- `bigEndian_eq_none_iff`, `compressed_eq_none_iff`: failure, for the digits and for the whole number;
- `compressed_reads`: the main result.
-/
import CilPatch.Proofs.Compressed
import CilPatch.Proofs.Records

namespace CilPatch.Blob

/-! ## Lead bytes -/

/-- the number of bytes that the top bits of a lead byte announce -/
inductive Announces (lead : UInt8) : Nat → Prop where
  | one (h : lead >>> 7 = 0b0) : Announces lead 1
  | two (h : lead >>> 6 = 0b10) : Announces lead 2
  | four (h : lead >>> 5 = 0b110) : Announces lead 4

/-- no number can be read at the first cursor, and reading leaves off at the second -/
inductive Cursor.Stuck (c : Cursor) : Cursor → Prop where
  /-- nothing is left to read -/
  | atEnd (h : c.blob.size ≤ c.pos) : Stuck c c
  /-- the lead byte announces nothing -/
  | reserved (lead : UInt8) (h : c.blob[c.pos]? = some lead) (hbits : lead >>> 5 = 0b111) :
    Stuck c { c with pos := c.pos + 1 }
  /-- the blob ends in front of the last byte that is announced -/
  | cut (lead : UInt8) (size : Nat) (h : c.blob[c.pos]? = some lead) (hsize : Announces lead size)
    (hcut : c.blob.size < c.pos + size) : Stuck c { c with pos := c.blob.size }

variable {lead : UInt8} {n size : Nat}

theorem shiftRight_eq_iff {k v : UInt8} (hk : k.toNat < 8) : lead >>> k = v ↔ lead.toNat / 2 ^ k.toNat = v.toNat := by
  rw [← UInt8.toNat_inj, UInt8.toNat_shiftRight, Nat.mod_eq_of_lt hk, Nat.shiftRight_eq_div_pow]

theorem announces_iff : Announces lead size ↔
    lead.toNat < 0x80 ∧ size = 1 ∨ (0x80 ≤ lead.toNat ∧ lead.toNat < 0xC0) ∧ size = 2 ∨
      (0xC0 ≤ lead.toNat ∧ lead.toNat < 0xE0) ∧ size = 4 := by
  constructor
  · intro h
    cases h with
    | one h => rw [shiftRight_eq_iff (by decide)] at h; simp at h; omega
    | two h => rw [shiftRight_eq_iff (by decide)] at h; simp at h; omega
    | four h => rw [shiftRight_eq_iff (by decide)] at h; simp at h; omega
  · rintro (⟨h, rfl⟩ | ⟨h, rfl⟩ | ⟨h, rfl⟩)
    · exact .one ((shiftRight_eq_iff (by decide)).2 (by simp; omega))
    · exact .two ((shiftRight_eq_iff (by decide)).2 (by simp; omega))
    · exact .four ((shiftRight_eq_iff (by decide)).2 (by simp; omega))

theorem reserved_iff : lead >>> 5 = 0b111 ↔ 0xE0 ≤ lead.toNat := by
  have := lead.toNat_lt
  rw [shiftRight_eq_iff (by decide)]
  simp
  omega

/-! ## Forms -/

/-- a compressed number is below 2^29 -/
theorem Compressed.lt {s : List UInt8} (h : Compressed s n) : n < 2 ^ 29 := by
  cases h with
  | one a ha => omega
  | two a b ha ha' =>
    have := b.toNat_lt
    omega
  | four a b c d ha ha' =>
    have := b.toNat_lt
    have := c.toNat_lt
    have := d.toNat_lt
    omega

theorem Compressed.ne_nil {s : List UInt8} (h : Compressed s n) : s ≠ [] := by
  cases h <;> exact List.cons_ne_nil _ _

/-- a form has as many bytes as its first one announces -/
theorem Compressed.announces {s : List UInt8} (h : Compressed s n) :
    ∃ lead rest, s = lead :: rest ∧ Announces lead s.length := by
  cases h with
  | one a ha => exact ⟨a, [], rfl, announces_iff.2 (.inl ⟨ha, rfl⟩)⟩
  | two a b ha ha' => exact ⟨a, [b], rfl, announces_iff.2 (.inr (.inl ⟨⟨ha, ha'⟩, rfl⟩))⟩
  | four a b c d ha ha' => exact ⟨a, [b, c, d], rfl, announces_iff.2 (.inr (.inr ⟨⟨ha, ha'⟩, rfl⟩))⟩

theorem length_encode (n : Nat) : (encode n).length = if n < 0x80 then 1 else if n < 0x4000 then 2 else 4 := by
  unfold encode
  split_ifs <;> rfl

/-- what is written for a number is a form of it -/
theorem compressed_encode (h : n < 2 ^ 29) : Compressed (encode n) n := by
  have hbyte (k : Nat) : (UInt8.ofNat k).toNat = k % 256 := UInt8.toNat_ofNat'
  unfold encode
  split_ifs with h1 h2
  · have hform := Compressed.one (UInt8.ofNat n) (by rw [hbyte]; omega)
    have hvalue : (UInt8.ofNat n).toNat = n := by rw [hbyte]; omega
    rwa [hvalue] at hform
  · have hform := Compressed.two (UInt8.ofNat (0x80 + n / 256)) (UInt8.ofNat n) (by rw [hbyte]; omega)
      (by rw [hbyte]; omega)
    have hvalue : ((UInt8.ofNat (0x80 + n / 256)).toNat - 0x80) * 256 + (UInt8.ofNat n).toNat = n := by
      rw [hbyte, hbyte]
      omega
    rwa [hvalue] at hform
  · have hform := Compressed.four (UInt8.ofNat (0xC0 + n / 0x1000000)) (UInt8.ofNat (n / 0x10000))
      (UInt8.ofNat (n / 256)) (UInt8.ofNat n) (by rw [hbyte]; omega) (by rw [hbyte]; omega)
    have hvalue : ((((UInt8.ofNat (0xC0 + n / 0x1000000)).toNat - 0xC0) * 256 + (UInt8.ofNat (n / 0x10000)).toNat) * 256
        + (UInt8.ofNat (n / 256)).toNat) * 256 + (UInt8.ofNat n).toNat = n := by
      rw [hbyte, hbyte, hbyte, hbyte]
      omega
    rwa [hvalue] at hform

namespace Cursor

variable {c d : Cursor}

/-! ## Success -/

/-- some bytes are passed where the blob holds them -/
theorem passes_iff_holds {s : List UInt8} :
    c.Passes s d ↔ c.blob.Holds c.pos s ∧ d = { c with pos := c.pos + s.length } := by
  refine and_congr_left ?_
  rintro rfl
  rw [Bytes.holds_iff_drop, List.prefix_iff_eq_append, eq_comm]
  rw [Cursor.rest, Cursor.rest, List.drop_drop]

/-- a form that stands in a blob is read wherever it stands -/
theorem compressed_of_form {form : List UInt8} (h : Compressed form n) (before after : List UInt8) :
    (⟨(before ++ form ++ after).toArray, before.length⟩ : Cursor).compressed
      = (some n, ⟨(before ++ form ++ after).toArray, before.length + form.length⟩) :=
  compressed_eq_some_iff.2 ⟨form, h, passes_iff_holds.2 ⟨Bytes.holds_toArray before form after rfl rfl, rfl⟩⟩

/-- a number that is read has the bytes that its lead byte announces, and they are all there -/
theorem announces_of_compressed (h : c.compressed = (some n, d)) : ∃ form lead, Compressed form n ∧ c.Passes form d ∧
    c.blob[c.pos]? = some lead ∧ Announces lead form.length ∧ d = { c with pos := c.pos + form.length } ∧
    d.pos ≤ c.blob.size := by
  obtain ⟨form, hform, hpasses⟩ := compressed_eq_some_iff.1 h
  obtain ⟨hholds, hd⟩ := passes_iff_holds.1 hpasses
  obtain ⟨lead, rest, hlead, hannounces⟩ := hform.announces
  have hfirst : c.blob[c.pos]? = some lead := by
    have := hholds 0 (List.length_pos_iff.2 hform.ne_nil)
    rwa [hlead] at this
  refine ⟨form, lead, hform, hpasses, hfirst, hannounces, hd, ?_⟩
  rw [hd]
  exact hholds.size_le hform.ne_nil

/-! ## Failure -/

theorem next_eq_none_iff : c.next = (none, d) ↔ c.blob.size ≤ c.pos ∧ d = c := by
  unfold next peek?
  constructor
  · intro h
    split at h
    · rename_i hnone
      cases h
      exact ⟨Array.getElem?_eq_none_iff.1 hnone, rfl⟩
    · cases h
  · rintro ⟨hend, rfl⟩
    rw [Array.getElem?_eq_none hend]

/-- digits are read in vain exactly when too few are left, and then all of them -/
theorem bigEndian_eq_none_iff {acc : Nat} (hpos : c.pos ≤ c.blob.size) :
    bigEndian n acc c = (none, d) ↔ c.blob.size < c.pos + n ∧ d = { c with pos := c.blob.size } := by
  induction n generalizing acc c with
  | zero =>
    simp only [bigEndian, Prod.mk.injEq, reduceCtorEq, false_and, false_iff, not_and]
    omega
  | succ n ih =>
    rw [bigEndian]
    cases hnext : c.next with
    | mk b e =>
      cases b with
      | none =>
        obtain ⟨hend, rfl⟩ := next_eq_none_iff.1 hnext
        have hstop : e.pos = e.blob.size := le_antisymm hpos hend
        simp only [Prod.mk.injEq, true_and]
        rw [← hstop]
        constructor
        · rintro rfl
          exact ⟨by omega, rfl⟩
        · rintro ⟨-, rfl⟩
          rfl
      | some b =>
        obtain ⟨hlt, rfl⟩ := pos_next_of_some hnext
        dsimp only
        rw [ih (by exact hlt)]
        simp only [Nat.add_assoc, Nat.add_comm 1 n]

/-- the cases of a number, by its lead byte -/
theorem compressed_of_lead (h : c.blob[c.pos]? = some lead) : c.compressed =
    if lead.toNat < 0x80 then (some lead.toNat, { c with pos := c.pos + 1 })
    else if lead.toNat < 0xC0 then bigEndian 1 (lead.toNat - 0x80) { c with pos := c.pos + 1 }
    else if lead.toNat < 0xE0 then bigEndian 3 (lead.toNat - 0xC0) { c with pos := c.pos + 1 }
    else (none, { c with pos := c.pos + 1 }) := by
  have hnext : c.next = (some lead, { c with pos := c.pos + 1 }) := by
    simp only [next, peek?, h]
  unfold compressed
  simp only [hnext, UInt8.lt_iff_toNat_lt, UInt8.reduceToNat]

/-- behind a lead byte that announces some bytes, reading fails when they are not all there -/
theorem stuck_iff_of_announces (h : c.blob[c.pos]? = some lead) (hsize : Announces lead size) :
    c.Stuck d ↔ c.blob.size < c.pos + size ∧ d = { c with pos := c.blob.size } := by
  rw [announces_iff] at hsize
  constructor
  · intro hstuck
    cases hstuck with
    | atEnd hend =>
      rw [Array.getElem?_eq_none hend] at h
      cases h
    | reserved other hother hbits =>
      obtain rfl : lead = other := Option.some.inj (h.symm.trans hother)
      rw [reserved_iff] at hbits
      omega
    | cut other size' hother hsize' hcut =>
      obtain rfl : lead = other := Option.some.inj (h.symm.trans hother)
      rw [announces_iff] at hsize'
      obtain rfl : size = size' := by omega
      exact ⟨hcut, rfl⟩
  · rintro ⟨hcut, rfl⟩
    exact .cut lead size h (announces_iff.2 hsize) hcut

theorem stuck_iff_of_reserved (h : c.blob[c.pos]? = some lead) (hbits : lead >>> 5 = 0b111) :
    c.Stuck d ↔ d = { c with pos := c.pos + 1 } := by
  constructor
  · intro hstuck
    cases hstuck with
    | atEnd hend =>
      rw [Array.getElem?_eq_none hend] at h
      cases h
    | reserved => rfl
    | cut other size hother hsize _ =>
      obtain rfl : lead = other := Option.some.inj (h.symm.trans hother)
      rw [reserved_iff] at hbits
      rw [announces_iff] at hsize
      omega
  · rintro rfl
    exact .reserved lead h hbits

theorem compressed_eq_none_iff : c.compressed = (none, d) ↔ c.Stuck d := by
  cases hlead : c.blob[c.pos]? with
  | none =>
    have hend : c.blob.size ≤ c.pos := Array.getElem?_eq_none_iff.1 hlead
    have hread : c.compressed = (none, c) := by
      unfold compressed
      rw [next_eq_none_iff.2 ⟨hend, rfl⟩]
    rw [hread]
    constructor
    · intro h
      cases h
      exact .atEnd hend
    · intro h
      cases h with
      | atEnd _ => rfl
      | reserved lead h _ => exact absurd (hlead.symm.trans h) nofun
      | cut lead size h _ _ => exact absurd (hlead.symm.trans h) nofun
  | some lead =>
    have hlt : c.pos < c.blob.size := (Array.getElem?_eq_some_iff.1 hlead).1
    rw [compressed_of_lead hlead]
    split_ifs with h1 h2 h3
    · rw [stuck_iff_of_announces hlead (announces_iff.2 (.inl ⟨h1, rfl⟩))]
      exact ⟨nofun, fun ⟨hcut, _⟩ => absurd hcut (not_lt.2 hlt)⟩
    · rw [stuck_iff_of_announces hlead (announces_iff.2 (.inr (.inl ⟨⟨not_lt.1 h1, h2⟩, rfl⟩)))]
      exact bigEndian_eq_none_iff (c := { c with pos := c.pos + 1 }) hlt
    · rw [stuck_iff_of_announces hlead (announces_iff.2 (.inr (.inr ⟨⟨not_lt.1 h2, h3⟩, rfl⟩)))]
      exact bigEndian_eq_none_iff (c := { c with pos := c.pos + 1 }) hlt
    · rw [stuck_iff_of_reserved hlead (reserved_iff.2 (not_lt.1 h3)), Prod.mk.injEq, eq_comm (a := d)]
      simp only [true_and]

end Cursor

/-! ## Main result -/

/-- **Compressed numbers are read wherever they stand.** The form that is written for a number below 2^29 is read as that
number at any place, up to the end of the form. Whatever is read is below 2^29 and takes the bytes that its lead byte
announces, all of which are there. Reading fails at the end of the blob, on a lead byte that announces nothing and where
the blob ends too early, and in no other case; the cursor stays, passes the lead byte, or goes to the end. -/
theorem compressed_reads :
    (∀ n < 2 ^ 29, ∀ before after : List UInt8,
      (encode n).length = (if n < 0x80 then 1 else if n < 0x4000 then 2 else 4) ∧
      (⟨(before ++ encode n ++ after).toArray, before.length⟩ : Cursor).compressed
        = (some n, ⟨(before ++ encode n ++ after).toArray, before.length + (encode n).length⟩)) ∧
    (∀ (c d : Cursor) (n : Nat), c.compressed = (some n, d) → n < 2 ^ 29 ∧ ∃ form lead, Compressed form n ∧
      c.Passes form d ∧ c.blob[c.pos]? = some lead ∧ Announces lead form.length ∧
      d = { c with pos := c.pos + form.length } ∧ d.pos ≤ c.blob.size) ∧
    ∀ c d : Cursor, c.compressed = (none, d) ↔ c.Stuck d := by
  refine ⟨?written, ?read, fun c d => Cursor.compressed_eq_none_iff⟩
  case written =>
    intro n hn before after
    exact ⟨length_encode n, Cursor.compressed_of_form (compressed_encode hn) before after⟩
  case read =>
    intro c d n h
    obtain ⟨form, lead, hform, hread⟩ := Cursor.announces_of_compressed h
    exact ⟨hform.lt, form, lead, hform, hread⟩

/-- the largest number behind a byte and in front of a lead byte that announces nothing, and the same number cut off -/
theorem compressed_reads_largest : 0x1FFFFFFF < 2 ^ 29 ∧ encode 0x1FFFFFFF = [0xDF, 0xFF, 0xFF, 0xFF] ∧
    (⟨#[0x80, 0xDF, 0xFF, 0xFF, 0xFF, 0xE0], 1⟩ : Cursor).compressed
      = (some 0x1FFFFFFF, ⟨#[0x80, 0xDF, 0xFF, 0xFF, 0xFF, 0xE0], 5⟩) ∧
    (⟨#[0x80, 0xDF, 0xFF, 0xFF, 0xFF, 0xE0], 5⟩ : Cursor).compressed
      = (none, ⟨#[0x80, 0xDF, 0xFF, 0xFF, 0xFF, 0xE0], 6⟩) ∧
    (⟨#[0xDF, 0xFF, 0xFF], 0⟩ : Cursor).compressed = (none, ⟨#[0xDF, 0xFF, 0xFF], 3⟩) := by
  obtain ⟨hwritten, -, hfails⟩ := compressed_reads
  obtain ⟨-, hread⟩ := hwritten 0x1FFFFFFF (by decide) [0x80] [0xE0]
  exact ⟨by decide, by decide, hread, (hfails _ _).2 (.reserved 0xE0 rfl (by decide)),
    (hfails _ _).2 (.cut 0xDF 4 rfl (.four (by decide)) (by decide))⟩

end CilPatch.Blob
