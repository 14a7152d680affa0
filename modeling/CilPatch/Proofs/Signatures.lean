/-
Method signatures are read exactly by their grammar.

`decode?_grammar` is the main result: a blob is decoded when it has the parts of a signature, it has them in one way
only, and the signature is what they say.

- `Modifier.flatMap_unique`, `Parts.unique`: the parts follow from the bytes;
- `skipModifiers_step`, `Round.advances`, `exists_not_round`: the loop over the modifiers ends;
- `skipModifiers_eq_some_iff`, `readArity_eq_some_iff`, `readReturn?_eq_some_iff`: each reader and its part.
-/
import Mathlib.Tactic
import CilPatch.Proofs.Compressed

namespace CilPatch.MethodSignature

open Blob (Cursor Compressed)

theorem isModifier_iff {b : UInt8} : isModifier b = true ↔ b = 0x1F ∨ b = 0x20 := by simp [isModifier]

theorem isModifier_eq_false_iff {b : UInt8} : isModifier b = false ↔ b ≠ 0x1F ∧ b ≠ 0x20 := by simp [isModifier]

/-! ## One way to take a blob apart -/

theorem Arity.unique {generic : Bool} {s t a b : List UInt8} {m n : Nat} (hs : Arity generic s m)
    (ht : Arity generic t n) (h : s ++ a = t ++ b) : s = t ∧ m = n ∧ a = b := by
  cases hs with
  | plain =>
    cases ht
    exact ⟨rfl, rfl, h⟩
  | generic s m hs =>
    cases ht with
    | generic t n ht => exact hs.unique ht h

/-- the modifiers end at the first byte that is no marker -/
theorem Modifier.flatMap_unique {ms ns : List Modifier} {e f : UInt8} {a b : List UInt8}
    (hms : ∀ m ∈ ms, m.WellFormed) (hns : ∀ n ∈ ns, n.WellFormed) (he : e ≠ 0x1F ∧ e ≠ 0x20)
    (hf : f ≠ 0x1F ∧ f ≠ 0x20) (h : ms.flatMap bytes ++ e :: a = ns.flatMap bytes ++ f :: b) :
    ms = ns ∧ e = f ∧ a = b := by
  induction ms generalizing ns with
  | nil =>
    cases ns with
    | nil => simpa using h
    | cons n ns =>
      have hmarker := (hns n List.mem_cons_self).marker
      simp only [List.flatMap_nil, List.nil_append, List.flatMap_cons, bytes, List.cons_append, List.cons.injEq] at h
      rw [← h.1] at hmarker
      tauto
  | cons m ms ih =>
    have hm := hms m List.mem_cons_self
    cases ns with
    | nil =>
      simp only [List.flatMap_nil, List.nil_append, List.flatMap_cons, bytes, List.cons_append, List.cons.injEq] at h
      have hmarker := hm.marker
      rw [h.1] at hmarker
      tauto
    | cons n ns =>
      obtain ⟨x, hx⟩ := hm.token
      obtain ⟨y, hy⟩ := (hns n List.mem_cons_self).token
      simp only [List.flatMap_cons, bytes, List.cons_append, List.append_assoc, List.cons.injEq] at h
      obtain ⟨hmarker, h⟩ := h
      obtain ⟨htoken, -, h⟩ := hx.unique hy h
      obtain ⟨rfl, hrest⟩ := ih (fun m hm => hms m (List.mem_cons_of_mem _ hm))
        (fun n hn => hns n (List.mem_cons_of_mem _ hn)) h
      exact ⟨by rw [Modifier.ext hmarker htoken], hrest⟩

theorem Parts.unique {p q : Parts} (hp : p.WellFormed) (hq : q.WellFormed) (h : p.bytes = q.bytes) : p = q := by
  unfold bytes at h
  obtain ⟨hlead, h⟩ := List.cons.inj h
  have harity := hq.arity
  rw [← hlead] at harity
  obtain ⟨harityBytes, harity, h⟩ := hp.arity.unique harity h
  obtain ⟨hcountBytes, hcount, h⟩ := hp.count.unique hq.count h
  obtain ⟨hmodifiers, helement, hrest⟩ := Modifier.flatMap_unique hp.modifiers hq.modifiers hp.element hq.element h
  exact Parts.ext hlead harityBytes harity hcountBytes hcount hmodifiers helement hrest

/-! ## The loop over the modifiers -/

variable {c d : Cursor}

/-- one round of the loop: a marker stands at the cursor and a number behind it, where the next round starts -/
def Round (c d : Cursor) : Prop :=
  (∃ marker, c.peek? = some marker ∧ isModifier marker = true) ∧
    ∃ token, ({ c with pos := c.pos + 1 } : Cursor).compressed = (some token, d)

/-- a round passes one modifier -/
theorem round_iff : Round c d ↔ ∃ m : Modifier, m.WellFormed ∧ c.Passes m.bytes d := by
  refine ⟨fun h => ?_, fun h => ?_⟩
  · obtain ⟨⟨marker, hmarker, hm⟩, token, htoken⟩ := h
    obtain ⟨s, hs, hpasses⟩ := Cursor.compressed_eq_some_iff.1 htoken
    obtain ⟨rest, hrest⟩ := Cursor.peek?_eq_some_iff.1 hmarker
    obtain ⟨c', hc', -⟩ := Cursor.exists_passes (s := [marker]) hrest
    have : c' = { c with pos := c.pos + 1 } := hc'.2
    subst this
    exact ⟨⟨marker, s⟩, ⟨isModifier_iff.1 hm, token, hs⟩, hc'.append hpasses⟩
  · obtain ⟨m, hm, hpasses⟩ := h
    obtain ⟨token, htoken⟩ := hm.token
    obtain ⟨c', hmarker, hpasses⟩ := Cursor.Passes.split (s := [m.marker]) hpasses
    have : c' = { c with pos := c.pos + 1 } := hmarker.2
    subst this
    refine ⟨⟨m.marker, Cursor.peek?_eq_some_iff.2 ⟨_, hmarker.1⟩, isModifier_iff.2 hm.marker⟩, token, ?_⟩
    exact Cursor.compressed_eq_some_iff.2 ⟨m.token, htoken, hpasses⟩

/-- the loop goes on behind a round -/
theorem skipModifiers_of_round (h : Round c d) : skipModifiers c = skipModifiers d := by
  obtain ⟨⟨marker, hmarker, hm⟩, token, htoken⟩ := h
  rw [skipModifiers, hmarker]
  simp only [hm, if_true]
  split
  · simp_all
  · simp_all

/-- the loop stops at a byte that is no marker -/
theorem skipModifiers_of_element {e : UInt8} (he : c.peek? = some e) (h : isModifier e = false) :
    skipModifiers c = some c := by
  rw [skipModifiers, he]
  simp only [h, Bool.false_eq_true, if_false]

/-- the loop does a round, or it has its answer: nothing or the place where it stands -/
theorem skipModifiers_step (c : Cursor) : (∃ d, Round c d ∧ skipModifiers c = skipModifiers d) ∨
    (∀ d, ¬ Round c d) ∧ (skipModifiers c = none ∨ skipModifiers c = some c) := by
  by_cases hround : ∃ d, Round c d
  · obtain ⟨d, hd⟩ := hround
    exact .inl ⟨d, hd, skipModifiers_of_round hd⟩
  · push Not at hround
    refine .inr ⟨hround, ?_⟩
    rw [skipModifiers]
    split
    · exact .inl rfl
    · rename_i marker hmarker
      split_ifs with hm
      · split
        · exact .inl rfl
        · rename_i token c' htoken
          exact absurd ⟨⟨marker, hmarker, hm⟩, token, htoken⟩ (hround c')
      · exact .inr rfl

theorem skipModifiers_eq_some_iff : skipModifiers c = some d ↔
    ∃ ms : List Modifier, (∀ m ∈ ms, m.WellFormed) ∧ c.Passes (ms.flatMap Modifier.bytes) d ∧
      ∃ e, d.peek? = some e ∧ isModifier e = false := by
  refine ⟨fun h => ?_, fun h => ?_⟩
  · fun_induction skipModifiers c with
    | case1 => cases h
    | case2 => cases h
    | case3 c marker hmarker hm token c' htoken ih =>
      obtain ⟨ms, hms, hpasses, hend⟩ := ih h
      obtain ⟨m, hwf, hround⟩ := round_iff.1 ⟨⟨marker, hmarker, hm⟩, token, htoken⟩
      refine ⟨m :: ms, List.forall_mem_cons.2 ⟨hwf, hms⟩, ?_, hend⟩
      rw [List.flatMap_cons]
      exact hround.append hpasses
    | case4 c e he hm =>
      cases h
      exact ⟨[], by simp, .nil d, e, he, by simpa using hm⟩
  · obtain ⟨ms, hms, hpasses, e, he, hm⟩ := h
    induction ms generalizing c with
    | nil =>
      rw [← (Cursor.Passes.nil c).eq hpasses] at he ⊢
      exact skipModifiers_of_element he hm
    | cons m ms ih =>
      rw [List.flatMap_cons] at hpasses
      obtain ⟨c', hround, hpasses⟩ := hpasses.split
      rw [skipModifiers_of_round (round_iff.2 ⟨m, hms m List.mem_cons_self, hround⟩)]
      exact ih (fun m hm => hms m (List.mem_cons_of_mem _ hm)) hpasses

/-- a round takes two bytes at least, and they are there -/
theorem Round.advances (h : Round c d) : d.blob = c.blob ∧ c.pos + 2 ≤ d.pos ∧ c.pos + 2 ≤ c.blob.size := by
  obtain ⟨-, token, htoken⟩ := h
  obtain ⟨hblob, hinside, hpos⟩ := Cursor.compressed_advances htoken
  exact ⟨hblob, hpos, hinside⟩

/-- no run of rounds is longer than half of the blob -/
theorem exists_not_round (run : Nat → Cursor) : ∃ n, 2 * n ≤ (run 0).blob.size ∧ ¬ Round (run n) (run (n + 1)) := by
  by_contra hall
  push Not at hall
  have hinv (n : Nat) (hn : 2 * n ≤ (run 0).blob.size) : (run n).blob = (run 0).blob ∧ 2 * n ≤ (run n).pos := by
    induction n with
    | zero => exact ⟨rfl, Nat.zero_le _⟩
    | succ n ih =>
      obtain ⟨hblob, hpos⟩ := ih (by omega)
      obtain ⟨hkept, hmoved, -⟩ := (hall n (by omega)).advances
      exact ⟨hkept.trans hblob, by omega⟩
  have hlast : 2 * ((run 0).blob.size / 2) ≤ (run 0).blob.size := Nat.mul_div_le _ _
  obtain ⟨hblob, hpos⟩ := hinv _ hlast
  obtain ⟨-, -, hinside⟩ := (hall _ hlast).advances
  rw [hblob] at hinside
  omega

/-! ## The other readers -/

theorem readArity_eq_some_iff {generic : Bool} {n : Nat} :
    readArity generic c = (some n, d) ↔ ∃ s, Arity generic s n ∧ c.Passes s d := by
  unfold readArity
  cases generic with
  | false =>
    simp only [Bool.false_eq_true, if_false, Prod.mk.injEq, Option.some.injEq]
    refine ⟨fun h => ?_, fun h => ?_⟩
    · obtain ⟨rfl, rfl⟩ := h
      exact ⟨[], .plain, .nil c⟩
    · obtain ⟨s, hs, hpasses⟩ := h
      cases hs
      exact ⟨rfl, (Cursor.Passes.nil c).eq hpasses⟩
  | true =>
    rw [if_pos rfl, Cursor.compressed_eq_some_iff]
    refine exists_congr fun s => and_congr_left fun _ => ⟨fun h => .generic s n h, fun h => ?_⟩
    cases h with
    | generic _ _ h => exact h

theorem readReturn?_eq_some_iff {element : UInt8} {category : ReturnCategory} :
    readReturn? c = some (element, category) ↔ ∃ rest, c.rest = element :: rest ∧ (element = 0x15 → rest ≠ []) ∧
      category = .ofElement element (element = 0x15 ∧ rest.head? = some 0x11) := by
  unfold readReturn?
  refine ⟨fun h => ?_, fun h => ?_⟩
  · split at h
    · cases h
    · rename_i e c' he
      obtain ⟨hrest, -⟩ := Cursor.next_eq_some_iff.1 he
      split_ifs at h with hgeneric
      · obtain ⟨inner, hinner, h⟩ := Option.map_eq_some_iff.1 h
        cases h
        rw [Cursor.peek?_eq_head?] at hinner
        refine ⟨c'.rest, hrest, fun _ hnil => ?_, by simp [hgeneric, hinner]⟩
        rw [hnil] at hinner
        cases hinner
      · cases h
        exact ⟨c'.rest, hrest, fun h => absurd h hgeneric, by simp [hgeneric]⟩
  · obtain ⟨rest, hrest, hne, rfl⟩ := h
    obtain ⟨c', hc', rfl⟩ := Cursor.exists_passes (s := [element]) hrest
    rw [Cursor.next_eq_some_iff.2 hc']
    simp only
    split_ifs with hgeneric
    · obtain ⟨inner, more, hmore⟩ := List.exists_cons_of_ne_nil (hne hgeneric)
      rw [Cursor.peek?_eq_head?, hmore]
      simp [hgeneric]
    · simp [hgeneric]

/-- a signature is decoded part after part -/
theorem decode?_eq_some_iff {blob : Bytes} {s : MethodSignature} :
    decode? blob = some s ↔ ∃ lead c₁ arity c₂ count c₃ c₄ element category,
      (⟨blob, 0⟩ : Cursor).next = (some lead, c₁) ∧ lead.toNat % 16 ≤ 5 ∧
      readArity (lead.toNat.testBit 4) c₁ = (some arity, c₂) ∧ c₂.compressed = (some count, c₃) ∧
      skipModifiers c₃ = some c₄ ∧ readReturn? c₄ = some (element, category) ∧
      s = ⟨.ofCode (lead.toNat % 16), lead.toNat.testBit 5, arity, count, element, category⟩ := by
  unfold decode?
  refine ⟨fun h => ?_, fun h => ?_⟩
  · split at h
    · cases h
    · rename_i lead c₁ hlead
      split_ifs at h with hconvention
      split at h
      · cases h
      · rename_i arity c₂ harity
        split at h
        · cases h
        · rename_i count c₃ hcount
          simp only [Option.bind_eq_bind, Option.bind_eq_some_iff] at h
          obtain ⟨c₄, hskip, ⟨element, category⟩, hreturn, h⟩ := h
          cases h
          exact ⟨lead, c₁, arity, c₂, count, c₃, c₄, element, category, hlead, not_lt.1 hconvention, harity, hcount,
            hskip, hreturn, rfl⟩
  · obtain ⟨lead, c₁, arity, c₂, count, c₃, c₄, element, category, hlead, hconvention, harity, hcount, hskip, hreturn,
      rfl⟩ := h
    simp only [hlead, if_neg (not_lt.2 hconvention), harity, hcount, hskip, hreturn, Option.bind_eq_bind,
      Option.bind_some]

/-! ## Main results -/

theorem decode?_of_parts {blob : Bytes} {p : Parts} (hp : p.WellFormed) (h : p.bytes = blob.toList) :
    decode? blob = some p.signature := by
  have hrest : (⟨blob, 0⟩ : Cursor).rest = p.bytes := h.symm
  obtain ⟨c₁, hlead, hrest⟩ := Cursor.exists_passes (s := [p.lead]) hrest
  obtain ⟨c₂, harity, hrest⟩ := Cursor.exists_passes hrest
  obtain ⟨c₃, hcount, hrest⟩ := Cursor.exists_passes hrest
  obtain ⟨c₄, hmodifiers, hrest⟩ := Cursor.exists_passes hrest
  have hskip : skipModifiers c₃ = some c₄ := skipModifiers_eq_some_iff.2
    ⟨p.modifiers, hp.modifiers, hmodifiers, p.element, Cursor.peek?_eq_some_iff.2 ⟨p.rest, hrest⟩,
      isModifier_eq_false_iff.2 hp.element⟩
  exact decode?_eq_some_iff.2 ⟨p.lead, c₁, p.arity, c₂, p.count, c₃, c₄, p.element, p.signature.returnCategory,
    Cursor.next_eq_some_iff.2 hlead, hp.convention, readArity_eq_some_iff.2 ⟨_, hp.arity, harity⟩,
    Cursor.compressed_eq_some_iff.2 ⟨_, hp.count, hcount⟩, hskip,
    readReturn?_eq_some_iff.2 ⟨p.rest, hrest, hp.rest, rfl⟩, rfl⟩

theorem exists_parts_of_decode? {blob : Bytes} {s : MethodSignature} (h : decode? blob = some s) :
    SignatureForm blob.toList s := by
  obtain ⟨lead, c₁, arity, c₂, count, c₃, c₄, element, category, hlead, hconvention, harity, hcount, hskip, hreturn,
    rfl⟩ := decode?_eq_some_iff.1 h
  obtain ⟨arityBytes, harity, hpasses₂⟩ := readArity_eq_some_iff.1 harity
  obtain ⟨countBytes, hcount, hpasses₃⟩ := Cursor.compressed_eq_some_iff.1 hcount
  obtain ⟨ms, hms, hpasses₄, e, he, hm⟩ := skipModifiers_eq_some_iff.1 hskip
  obtain ⟨rest, hrest, hne, rfl⟩ := readReturn?_eq_some_iff.1 hreturn
  have helement : e = element := by
    rw [Cursor.peek?_eq_head?, hrest] at he
    simpa using he.symm
  subst helement
  refine ⟨⟨lead, arityBytes, arity, countBytes, count, ms, e, rest⟩,
    ⟨hconvention, harity, hcount, hms, isModifier_eq_false_iff.1 hm, hne⟩, ?_, rfl⟩
  have hblob : (⟨blob, 0⟩ : Cursor).rest = blob.toList := rfl
  rw [← hblob, (Cursor.next_eq_some_iff.1 hlead).1, hpasses₂.1, hpasses₃.1, hpasses₄.1, hrest]
  rfl

/-- **A blob is decoded exactly when it is a signature.** The signature says what the parts of the blob say, and they
are the only parts that the blob has. The loop over the modifiers does rounds until it has its answer, and no more of
them than there are pairs of bytes. -/
theorem decode?_grammar (blob : Bytes) :
    (∀ s, decode? blob = some s ↔ SignatureForm blob.toList s) ∧
      (∀ p q : Parts, p.WellFormed → q.WellFormed → p.bytes = blob.toList → q.bytes = blob.toList → p = q) ∧
      (∀ c : Cursor, (∃ d, Round c d ∧ skipModifiers c = skipModifiers d) ∨
        (∀ d, ¬ Round c d) ∧ (skipModifiers c = none ∨ skipModifiers c = some c)) ∧
      ∀ run : Nat → Cursor, (run 0).blob = blob → ∃ n, 2 * n ≤ blob.size ∧ ¬ Round (run n) (run (n + 1)) := by
  refine ⟨fun s => ⟨exists_parts_of_decode?, ?_⟩, ?_, skipModifiers_step, ?_⟩
  · rintro ⟨p, hp, hbytes, rfl⟩
    exact decode?_of_parts hp hbytes
  · intro p q hp hq hpbytes hqbytes
    exact Parts.unique hp hq (hpbytes.trans hqbytes.symm)
  · rintro run rfl
    exact exists_not_round run

/-- a generic method whose return type has two modifiers; the numbers of both look like markers -/
def modifiedParts : Parts where
  lead := 0x30
  arityBytes := [1]
  arity := 1
  countBytes := [2]
  count := 2
  modifiers := [⟨0x20, [0x1F]⟩, ⟨0x1F, [0x80, 0x20]⟩]
  element := 0x15
  rest := [0x12, 8, 1, 8]

theorem modifiedParts_wellFormed : modifiedParts.WellFormed where
  convention := by decide
  arity := .generic _ _ (.one 1 (by decide))
  count := .one 2 (by decide)
  modifiers := by
    intro m hm
    simp only [modifiedParts, List.mem_cons, List.not_mem_nil, or_false] at hm
    obtain rfl | rfl := hm
    · exact ⟨.inr rfl, _, .one 0x1F (by decide)⟩
    · exact ⟨.inl rfl, _, .two 0x80 0x20 (by decide) (by decide)⟩
  element := by decide
  rest := by decide

theorem decode?_grammar_modified :
    decode? #[0x30, 1, 2, 0x20, 0x1F, 0x1F, 0x80, 0x20, 0x15, 0x12, 8, 1, 8] =
        some ⟨.managed, true, 1, 2, 0x15, .reference⟩ ∧
      ∀ p : Parts, p.WellFormed → p.bytes = modifiedParts.bytes → p = modifiedParts :=
  have h := decode?_grammar #[0x30, 1, 2, 0x20, 0x1F, 0x1F, 0x80, 0x20, 0x15, 0x12, 8, 1, 8]
  ⟨(h.1 _).2 ⟨modifiedParts, modifiedParts_wellFormed, rfl, by decide⟩,
    fun _ hp hbytes => h.2.1 _ _ hp modifiedParts_wellFormed hbytes rfl⟩

end CilPatch.MethodSignature
