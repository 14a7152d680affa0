/-
Blobs: length-prefixed byte strings whose numbers are written in compressed form (II.23.2).

A compressed number takes one byte below 2^7, two below 2^14 and four below 2^29, most significant byte first; the top
bits of the lead byte tell which. `Cursor.compressed` reads one and says where the cursor stands afterwards, also when
it fails; `encode` writes one. `entry?` is the content of the heap entry at an index.
-/
import CilPatch.Bytes

namespace CilPatch.Blob

/-- a reading position inside a blob -/
structure Cursor where
  blob : Bytes
  pos : Nat
  deriving DecidableEq, Repr

namespace Cursor

/-- no byte is left -/
def atEnd (c : Cursor) : Bool := c.blob.size ≤ c.pos

/-- the bytes that are left -/
def rest (c : Cursor) : List UInt8 := c.blob.toList.drop c.pos

def peek? (c : Cursor) : Option UInt8 := c.blob[c.pos]?

/-- the next byte, and the cursor behind it -/
def next (c : Cursor) : Option UInt8 × Cursor :=
  match c.peek? with
  | none => (none, c)
  | some b => (some b, { c with pos := c.pos + 1 })

/-- appends the next `n` bytes to the digits of `acc` in base 256 -/
def bigEndian : (n acc : Nat) → Cursor → Option Nat × Cursor
  | 0, acc, c => (some acc, c)
  | n + 1, acc, c =>
    match c.next with
    | (none, c) => (none, c)
    | (some b, c) => bigEndian n (acc * 256 + b.toNat) c

/-- a compressed number, and where the cursor stands after it or after the bytes read in vain -/
def compressed (c : Cursor) : Option Nat × Cursor :=
  match c.next with
  | (none, c) => (none, c)
  | (some lead, c) =>
    if lead < 0x80 then (some lead.toNat, c)
    else if lead < 0xC0 then bigEndian 1 (lead.toNat - 0x80) c
    else if lead < 0xE0 then bigEndian 3 (lead.toNat - 0xC0) c
    else (none, c)

theorem next_of_rest_eq_cons {c : Cursor} {b : UInt8} {bs : List UInt8} (h : c.rest = b :: bs) :
    c.next = (some b, { c with pos := c.pos + 1 }) ∧ ({ c with pos := c.pos + 1 } : Cursor).rest = bs := by
  have hp : c.peek? = some b := by
    have := congrArg (·[0]?) h
    simpa [rest, peek?] using this
  refine ⟨by simp [next, hp], ?_⟩
  have := congrArg List.tail h
  simpa [rest, List.tail_drop] using this

theorem blob_next (c : Cursor) : c.next.2.blob = c.blob := by
  unfold next
  split <;> rfl

theorem pos_le_pos_next (c : Cursor) : c.pos ≤ c.next.2.pos := by
  unfold next
  split <;> simp

theorem pos_next_of_some {c : Cursor} {b : UInt8} {c' : Cursor} (h : c.next = (some b, c')) :
    c.pos < c.blob.size ∧ c' = { c with pos := c.pos + 1 } := by
  unfold next at h
  split at h
  · cases h
  · next hp =>
    cases h
    exact ⟨(Array.getElem?_eq_some_iff.1 hp).1, rfl⟩

theorem blob_bigEndian (n acc : Nat) (c : Cursor) : (bigEndian n acc c).2.blob = c.blob := by
  induction n generalizing acc c with
  | zero => rfl
  | succ n ih =>
    have hb := blob_next c
    rw [bigEndian]
    split
    · next c' h => simpa [h] using hb
    · next b c' h => rw [ih]; simpa [h] using hb

theorem pos_le_pos_bigEndian (n acc : Nat) (c : Cursor) : c.pos ≤ (bigEndian n acc c).2.pos := by
  induction n generalizing acc c with
  | zero => simp [bigEndian]
  | succ n ih =>
    have hp := pos_le_pos_next c
    rw [bigEndian]
    split
    · next c' h => simpa [h] using hp
    · next b c' h =>
      rw [h] at hp
      exact Nat.le_trans hp (ih _ c')

/-- a compressed number that is read moves the cursor on in the same blob -/
theorem compressed_advances {c c' : Cursor} {v : Nat} (h : c.compressed = (some v, c')) :
    c'.blob = c.blob ∧ c.pos < c.blob.size ∧ c.pos < c'.pos := by
  unfold compressed at h
  split at h
  · cases h
  · next lead d hn =>
    obtain ⟨hlt, rfl⟩ := pos_next_of_some hn
    have key (n acc : Nat) (e : bigEndian n acc { c with pos := c.pos + 1 } = (some v, c')) :
        c'.blob = c.blob ∧ c.pos < c.blob.size ∧ c.pos < c'.pos := by
      have hb := blob_bigEndian n acc { c with pos := c.pos + 1 }
      have hp := pos_le_pos_bigEndian n acc { c with pos := c.pos + 1 }
      rw [e] at hb hp
      exact ⟨hb, hlt, hp⟩
    split at h
    · cases h
      exact ⟨rfl, hlt, by simp⟩
    · split at h
      · exact key _ _ h
      · split at h
        · exact key _ _ h
        · cases h

end Cursor

/-- the compressed form of a number below 2^29 -/
def encode (n : Nat) : List UInt8 :=
  if n < 0x80 then [UInt8.ofNat n]
  else if n < 0x4000 then [UInt8.ofNat (0x80 + n / 256), UInt8.ofNat n]
  else [UInt8.ofNat (0xC0 + n / 0x1000000), UInt8.ofNat (n / 0x10000), UInt8.ofNat (n / 256), UInt8.ofNat n]

/-- the content of the heap entry at `index`: a compressed length and that many bytes, all inside the heap -/
def entry? (heap : Bytes) (index : Nat) : Option Bytes :=
  match (⟨heap, index⟩ : Cursor).compressed with
  | (none, _) => none
  | (some length, c) => heap.slice? c.pos length

end CilPatch.Blob
