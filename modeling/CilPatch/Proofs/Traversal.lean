/-
Steps that may fail, one after the other: when a sequence of them succeeds and what it gives.
-/
import Mathlib.Tactic

namespace CilPatch

variable {ε α β : Type}

/-- two steps succeed exactly when the first does and the second does on its result -/
theorem bind_eq_ok_iff {x : Except ε α} {f : α → Except ε β} {b : β} :
    x >>= f = .ok b ↔ ∃ a, x = .ok a ∧ f a = .ok b := by
  cases x with
  | error e => simp [bind, Except.bind]
  | ok a => simp [bind, Except.bind]

theorem mapM_range_succ_eq_ok_iff {n : Nat} {f : Nat → Except ε α} {l : List α} :
    (List.range (n + 1)).mapM f = .ok l ↔
      ∃ init x, (List.range n).mapM f = .ok init ∧ f n = .ok x ∧ l = init ++ [x] := by
  rw [List.range_succ, List.mapM_append, bind_eq_ok_iff]
  constructor
  · rintro ⟨init, hinit, h⟩
    rw [List.mapM_cons, List.mapM_nil] at h
    simp only [bind_eq_ok_iff] at h
    obtain ⟨last, ⟨x, hx, rest, hrest, hlast⟩, h⟩ := h
    cases hrest
    cases hlast
    cases h
    exact ⟨init, x, hinit, hx, rfl⟩
  · rintro ⟨init, x, hinit, hx, rfl⟩
    refine ⟨init, hinit, ?_⟩
    rw [List.mapM_cons, List.mapM_nil, hx]
    rfl

/-- a step for every number below `n` succeeds exactly when each of them does, and gives their results in order -/
theorem mapM_range_eq_ok_iff {n : Nat} {f : Nat → Except ε α} {l : List α} :
    (List.range n).mapM f = .ok l ↔ l.length = n ∧ ∀ i x, l[i]? = some x → f i = .ok x := by
  induction n generalizing l with
  | zero =>
    constructor
    · intro h
      cases h
      simp
    · rintro ⟨hl, -⟩
      rw [List.length_eq_zero_iff.1 hl]
      rfl
  | succ n ih =>
    rw [mapM_range_succ_eq_ok_iff]
    constructor
    · rintro ⟨init, x, hinit, hx, rfl⟩
      obtain ⟨hlen, hall⟩ := ih.1 hinit
      refine ⟨by simp [hlen], fun i y hi => ?_⟩
      rcases Nat.lt_or_ge i n with hlt | hge
      · exact hall i y (by rwa [List.getElem?_append_left (by omega)] at hi)
      · rw [List.getElem?_append_right (by omega), hlen, List.getElem?_singleton] at hi
        obtain ⟨hi0, hxy⟩ := Option.ite_none_right_eq_some.1 hi
        cases hxy
        rwa [Nat.le_antisymm (Nat.le_of_sub_eq_zero hi0) hge]
    · rintro ⟨hlen, hall⟩
      obtain ⟨init, x, rfl⟩ : ∃ init x, l = init ++ [x] :=
        (List.eq_nil_or_concat' l).resolve_left (List.ne_nil_of_length_eq_add_one hlen)
      have hinit : init.length = n := by simpa using hlen
      refine ⟨init, x, ih.2 ⟨hinit, fun i y hi => hall i y ?_⟩, hall n x ?_, rfl⟩
      · rwa [List.getElem?_append_left (List.getElem?_eq_some_iff.1 hi).1]
      · rw [← hinit, List.getElem?_concat_length]

/-- steps that succeed for every entry of a list give one result for each entry -/
theorem exists_mapM_range {γ : Type} {entries : List γ} {n : Nat} (hn : entries.length = n) {f : Nat → Except ε α}
    {P : Nat → γ → α → Prop} (h : ∀ i y, entries[i]? = some y → ∃ x, f i = .ok x ∧ P i y x) :
    ∃ l, (List.range n).mapM f = .ok l ∧ l.length = entries.length ∧
      ∀ i y x, entries[i]? = some y → l[i]? = some x → P i y x := by
  subst hn
  have hstep : ∀ i : Fin entries.length, ∃ x, f i = .ok x ∧ P i entries[i] x :=
    fun i => h i entries[i] (List.getElem?_eq_getElem i.2)
  choose g hg hP using hstep
  have hresult (i : Nat) (x : α) (hi : (List.ofFn g)[i]? = some x) : ∃ hlt : i < entries.length, g ⟨i, hlt⟩ = x := by
    rw [List.getElem?_ofFn] at hi
    split_ifs at hi with hlt
    exact ⟨hlt, Option.some.inj hi⟩
  refine ⟨List.ofFn g, mapM_range_eq_ok_iff.2 ⟨by simp, fun i x hi => ?_⟩, by simp, fun i y x hy hi => ?_⟩
  · obtain ⟨hlt, rfl⟩ := hresult i x hi
    exact hg ⟨i, hlt⟩
  · obtain ⟨hlt, rfl⟩ := hresult i x hi
    obtain rfl : entries[i] = y := Option.some.inj ((List.getElem?_eq_getElem hlt).symm.trans hy)
    exact hP ⟨i, hlt⟩

/-- steps that agree below `n` give the same results -/
theorem mapM_range_congr {n : Nat} {f g : Nat → Except ε α} {l : List α} (h : (List.range n).mapM f = .ok l)
    (hfg : ∀ i, i < n → g i = f i) : (List.range n).mapM g = .ok l := by
  obtain ⟨hlen, hall⟩ := mapM_range_eq_ok_iff.1 h
  refine mapM_range_eq_ok_iff.2 ⟨hlen, fun i x hi => ?_⟩
  have hlt := (List.getElem?_eq_some_iff.1 hi).1
  rw [hfg i (by omega), hall i x hi]

/-! ## Steps with other errors -/

variable {δ : Type}

theorem mapError_bind (r : ε → δ) (x : Except ε α) (f : α → Except ε β) :
    (x >>= f).mapError r = x.mapError r >>= fun a => (f a).mapError r := by
  cases x <;> rfl

/-- steps that agree except for their errors give the same results or the same error -/
theorem mapM_mapError {r : ε → δ} {xs : List α} {f : α → Except δ β} {g : α → Except ε β}
    (h : ∀ x ∈ xs, f x = (g x).mapError r) : xs.mapM f = (xs.mapM g).mapError r := by
  induction xs with
  | nil => rfl
  | cons x xs ih =>
    have hx := h x List.mem_cons_self
    have hxs := ih fun y hy => h y (List.mem_cons_of_mem x hy)
    rw [List.mapM_cons, List.mapM_cons, mapError_bind, hx, hxs]
    congr 1
    funext y
    rw [mapError_bind]
    rfl

/-- steps that cannot fail are a map -/
theorem mapM_eq_ok_map {xs : List α} {f : α → Except ε β} {g : α → β} (h : ∀ x ∈ xs, f x = .ok (g x)) :
    xs.mapM f = .ok (xs.map g) := by
  induction xs with
  | nil => rfl
  | cons x xs ih =>
    rw [List.mapM_cons, h x List.mem_cons_self, ih fun y hy => h y (List.mem_cons_of_mem x hy)]
    rfl

end CilPatch
