/-
The category that a decoded signature reports, and the closed set of return types.

`decode?_returnType` is the main result. Everything outside the closed set is unsupported, with one exception: a generic
instance is looked at for a value type and not for a class, so an instance of anything else is a reference too.

- `eq_code_of_ofElement`: a number with a category is the code of an element type;
- `not_returnType_of_instanceOfOther`: the exception is outside the closed set;
- `returnType_of_signature`: a category other than unsupported comes from the closed set, or from the exception.
-/
import Mathlib.Tactic
import CilPatch.Proofs.Signatures
import CilPatch.Signature.ElementType

namespace CilPatch

/-! ## Numbers and names -/

namespace ReturnCategory

variable {e : UInt8} {t : ElementType} {c : ReturnCategory} {ofValue : Bool}

theorem ofElement_of_category? (h : t.category? = some c) : ofElement t.code ofValue = c := by
  cases t <;> first | exact Option.some.inj h | cases h

theorem ofElement_of_isValue (h : t.IsValue) : ofElement t.code ofValue = unsupported := by
  rcases h with rfl | rfl | rfl | rfl <;> rfl

/-- a number with a category is the code of a type that has this category, or of a generic instance -/
theorem eq_code_of_ofElement (h : ofElement e ofValue ≠ unsupported) :
    ∃ t : ElementType, e = t.code ∧ (t.category? = some (ofElement e ofValue) ∨ t = .genericInstance) := by
  have hall : ∀ n < 256, ∀ ofValue, ofElement (.ofNat n) ofValue ≠ unsupported → ∃ t : ElementType,
      UInt8.ofNat n = t.code ∧ (t.category? = some (ofElement (.ofNat n) ofValue) ∨ t = .genericInstance) := by
    decide +kernel
  have he := hall e.toNat e.toNat_lt ofValue
  rw [UInt8.ofNat_toNat] at he
  exact he h

end ReturnCategory

/-- the closed set has none of the other instances -/
theorem not_returnType_of_instanceOfOther {type : List UInt8} {c : ReturnCategory} (h : InstanceOfOther type) :
    ¬ ReturnType type c := by
  obtain ⟨b, rest, htype, hclass, -⟩ := h
  intro hc
  cases hc with
  | element t c rest ht =>
    have hcode : t.code = ElementType.genericInstance.code := (List.cons.inj htype).1
    cases t <;> first | exact absurd hcode (by decide) | cases ht
  | classInstance rest => exact hclass (List.cons.inj (List.cons.inj htype).2).1.symm

/-! ## Signatures -/

namespace MethodSignature

/-- what a category says about the return type it is reported for -/
structure Classifies (c : ReturnCategory) (type : List UInt8) : Prop where
  /-- only the closed set is supported, instances of neither a class nor a value type aside -/
  closed : c ≠ .unsupported → ReturnType type c ∨ InstanceOfOther type ∧ c = .reference
  /-- a type of the closed set has its own category -/
  supported : ∀ c', ReturnType type c' → c = c'
  /-- the instances that the closed set leaves out, and that are supported all the same -/
  instanceOfOther : InstanceOfOther type → c = .reference
  value : ∀ t : ElementType, t.IsValue → type.head? = some t.code → c = .unsupported
  instanceOfValue : ∀ rest, type = ElementType.genericInstance.code :: ElementType.valueType.code :: rest →
    c = .unsupported
  unknown : (∀ t : ElementType, type.head? ≠ some t.code) → c = .unsupported

namespace Parts

variable {p : Parts}

/-- an instance is a reference, unless its second byte says that it is one of a value type -/
theorem category_of_instance {b : UInt8} {rest : List UInt8}
    (h : p.returnType = ElementType.genericInstance.code :: b :: rest) :
    p.signature.returnCategory = if b = ElementType.valueType.code then .unsupported else .reference := by
  obtain ⟨helement, hrest⟩ := List.cons.inj h
  simp only [signature, helement, hrest]
  by_cases hb : b = 0x11
  · subst hb
    rfl
  · simp [ElementType.code, hb, ReturnCategory.ofElement]

theorem returnType_of_signature (hp : p.WellFormed) (h : p.signature.returnCategory ≠ .unsupported) :
    ReturnType p.returnType p.signature.returnCategory ∨
      InstanceOfOther p.returnType ∧ p.signature.returnCategory = .reference := by
  obtain ⟨t, ht, hcategory | rfl⟩ := ReturnCategory.eq_code_of_ofElement h
  · left
    rw [returnType, ht]
    exact .element t _ p.rest hcategory
  · obtain ⟨b, rest, hrest⟩ := List.exists_cons_of_ne_nil (hp.rest ht)
    have htype : p.returnType = ElementType.genericInstance.code :: b :: rest := by rw [returnType, ht, hrest]
    have hinstance := category_of_instance htype
    by_cases hvalue : b = ElementType.valueType.code
    · rw [if_pos hvalue] at hinstance
      exact absurd hinstance h
    · rw [if_neg hvalue] at hinstance
      by_cases hclass : b = ElementType.classType.code
      · left
        rw [htype, hclass, hinstance]
        exact .classInstance rest
      · exact .inr ⟨⟨b, rest, htype, hclass, hvalue⟩, hinstance⟩

theorem classifies_signature (hp : p.WellFormed) : Classifies p.signature.returnCategory p.returnType where
  closed := returnType_of_signature hp
  supported := by
    intro c hc
    generalize htype : p.returnType = type at hc
    cases hc with
    | element t c rest ht =>
      have helement : p.element = t.code := (List.cons.inj htype).1
      simp only [signature, helement]
      exact ReturnCategory.ofElement_of_category? ht
    | classInstance rest => exact category_of_instance htype
  instanceOfOther := by
    rintro ⟨b, rest, htype, -, hvalue⟩
    rw [category_of_instance htype, if_neg hvalue]
  value := by
    intro t ht hhead
    have helement : p.element = t.code := Option.some.inj hhead
    simp only [signature, helement]
    exact ReturnCategory.ofElement_of_isValue ht
  instanceOfValue := by
    intro rest htype
    rw [category_of_instance htype, if_pos rfl]
  unknown := by
    intro hunknown
    by_contra h
    obtain ⟨t, ht, -⟩ := ReturnCategory.eq_code_of_ofElement h
    exact hunknown t (congrArg some ht)

end Parts

/-- **Every return type is classified by the closed set, but for one kind of generic instance.** -/
theorem decode?_returnType {blob : Bytes} {s : MethodSignature} (h : decode? blob = some s) :
    ∃ p : Parts, p.WellFormed ∧ p.bytes = blob.toList ∧
      (∀ q : Parts, q.WellFormed → q.bytes = blob.toList → q = p) ∧ Classifies s.returnCategory p.returnType := by
  obtain ⟨p, hp, hbytes, rfl⟩ := exists_parts_of_decode? h
  refine ⟨p, hp, hbytes, ?_, Parts.classifies_signature hp⟩
  intro q hq hqbytes
  exact Parts.unique hq hp (hqbytes.trans hbytes.symm)

/-- an instance of a class behind two modifiers is a reference by the closed set -/
theorem decode?_returnType_modified :
    decode? #[0x30, 1, 2, 0x20, 0x1F, 0x1F, 0x80, 0x20, 0x15, 0x12, 8, 1, 8] =
        some ⟨.managed, true, 1, 2, 0x15, .reference⟩ ∧
      ∃ p : Parts, p.WellFormed ∧
        p.bytes = [0x30, 1, 2, 0x20, 0x1F, 0x1F, 0x80, 0x20, 0x15, 0x12, 8, 1, 8] ∧
        (∀ q : Parts, q.WellFormed → q.bytes = p.bytes → q = p) ∧ Classifies .reference p.returnType := by
  have h : decode? #[0x30, 1, 2, 0x20, 0x1F, 0x1F, 0x80, 0x20, 0x15, 0x12, 8, 1, 8] =
      some ⟨.managed, true, 1, 2, 0x15, .reference⟩ := decode?_of_parts modifiedParts_wellFormed rfl
  obtain ⟨p, hp, hbytes, hunique, hclassifies⟩ := decode?_returnType h
  exact ⟨h, p, hp, hbytes, fun q hq hq' => hunique q hq (hq'.trans hbytes), hclassifies⟩

/-- **An instance of an `int32` is a reference too**, though no return type of the closed set starts like that -/
theorem decode?_instance_of_int32 :
    decode? #[0x00, 0, 0x15, 8] = some ⟨.managed, false, 0, 0, 0x15, .reference⟩ ∧
      ∃ p : Parts, p.WellFormed ∧ p.bytes = [0x00, 0, 0x15, 8] ∧ p.returnType = [0x15, 8] ∧
        ∀ c, ¬ ReturnType p.returnType c := by
  have hp : (⟨0, [], 0, [0], 0, [], 0x15, [8]⟩ : Parts).WellFormed :=
    ⟨by decide, .plain, .one 0 (by decide), by simp, by decide, by simp⟩
  refine ⟨decode?_of_parts hp rfl, _, hp, rfl, rfl, ?_⟩
  intro c
  exact not_returnType_of_instanceOfOther ⟨8, [], rfl, by decide, by decide⟩

end MethodSignature

end CilPatch
