/-
A patched method returns the default value of its return type.

- `Body.run_map_byte`: running the bytes of a program is running its opcodes;
- `Body.runOpcodes_default`: the default opcodes return the default value, whatever the arguments are;
- `Body.evaluate_of_holds_tiny`: code behind a tiny header is what runs at that place of a file;
- `evaluate_patched`: every successful patch.
-/
import Mathlib.Tactic
import CilPatch.Body.Evaluation
import CilPatch.Proofs.Records
import CilPatch.Proofs.Runs

namespace CilPatch

/-- the byte of an opcode that is known by it -/
theorem Opcode.eq_byte_of_ofByte? {b : UInt8} {op : Opcode} (h : ofByte? b = some op) : b = op.byte := by
  unfold ofByte? at h
  split at h
  case h_13 => cases h
  all_goals
    rename_i hb
    cases h
    exact UInt8.toNat_inj.1 hb

namespace Body

variable {args : List StackValue}

/-! ## Programs -/

/-- runs opcodes up to the first return -/
def runOpcodes (args : List StackValue) : (program : List Opcode) → (stack : List StackValue) → Option Return
  | [], _ => none
  | .ret :: _, stack => Return.ofStack? stack
  | op :: program, stack => (op.execute args stack).bind (runOpcodes args program)

theorem run_map_byte (program : List Opcode) (stack : List StackValue) :
    run args (program.map Opcode.byte) stack = runOpcodes args program stack := by
  induction program generalizing stack with
  | nil => rfl
  | cons op program ih =>
    have hrest : run args (program.map Opcode.byte) = runOpcodes args program := funext ih
    rw [List.map_cons, run, Opcode.ofByte?_byte, hrest]
    cases op <;> rfl

/-- the default program of a category returns its default value; without the one there is not the other -/
theorem runOpcodes_default (c : ReturnCategory) : runOpcodes args c.defaultOpcodes [] = c.default? := by
  cases c <;> rfl

/-- a result comes from a return in the code -/
theorem ret_mem_of_run {code : List UInt8} {stack : List StackValue} {v : Return} (h : run args code stack = some v) :
    Opcode.ret.byte ∈ code := by
  induction code generalizing stack with
  | nil => cases h
  | cons b code ih =>
    rw [run] at h
    split at h
    · cases h
    · rename_i hret
      rw [Opcode.eq_byte_of_ofByte? hret]
      exact List.mem_cons_self
    · obtain ⟨next, -, hnext⟩ := Option.bind_eq_some_iff.1 h
      exact List.mem_cons_of_mem b (ih hnext)

/-! ## Bodies in a file -/

theorem evaluate_eq_some_iff {file : Bytes} {off : Nat} {v : Return} :
    evaluate file off args = some v ↔ ∃ header code, BodyHeader.readAt file off = .ok header ∧
      file.slice? (off + header.headerSize) header.codeSize = some code ∧ run args code.toList [] = some v := by
  unfold evaluate
  refine ⟨fun h => ?_, fun h => ?_⟩
  · split at h
    · cases h
    · rename_i header hread
      obtain ⟨code, hcode, hrun⟩ := Option.bind_eq_some_iff.1 h
      exact ⟨header, code, hread, hcode, hrun⟩
  · obtain ⟨header, code, hread, hcode, hrun⟩ := h
    simp only [hread, hcode, Option.bind_some, hrun]

theorem evaluate_of_holds_tiny {b : Bytes} {off : Nat} {code body : List UInt8} {v : Return}
    (hwrap : wrapTiny code = .ok body) (h : b.Holds off body) (hrun : run args code [] = some v) :
    evaluate b off args = some v := by
  have hcode : code ≠ [] := List.ne_nil_of_mem (ret_mem_of_run hrun)
  have hslice : b.slice? (off + 1) code.length = some code.toArray :=
    Bytes.slice?_of_holds (holds_code_of_wrapTiny hwrap h) hcode
  exact evaluate_eq_some_iff.2 ⟨_, _, BodyHeader.readAt_of_holds_tiny hwrap h, hslice, hrun⟩

end Body

/-- a category with a default body has a default value -/
theorem ReturnCategory.exists_default {c : ReturnCategory} {body : List UInt8} (h : c.defaultBody = .ok body) :
    ∃ v, c.default? = some v := by
  cases c with
  | unsupported => cases h
  | other code => cases h
  | _ => exact ⟨_, rfl⟩

/-- **A patched method returns the default of its return type.** After a successful patch, the body at its place in the
buffer runs to a return inside its code, whatever the arguments are, and what it returns is the default value of the
return category: nothing, a zero of the right kind, or null. -/
theorem evaluate_patched (b out : Bytes) (type method : Text) (s : PatchSummary)
    (h : patchBytes b type method = (.ok s, out)) (args : List StackValue) :
    ∃ v, s.method.returnCategory.default? = some v ∧ Body.evaluate out s.fileOffset args = some v ∧
      ∃ header code, BodyHeader.readAt out s.fileOffset = .ok header ∧
        out.slice? (s.fileOffset + header.headerSize) header.codeSize = some code ∧
        Opcode.ret.byte ∈ code.toList ∧ Body.run args code.toList [] = some v := by
  obtain ⟨m, r, hm, hr, rfl, rfl⟩ := patchBytes_eq_ok_iff.1 h
  obtain rfl := Module.bytes_of_ofBytes hm
  have hcategory := Module.defaultBody_of_plan hr
  obtain ⟨v, hv⟩ := ReturnCategory.exists_default hcategory
  have hholds : (r.apply m.bytes).Holds r.summary.fileOffset r.body := Replacement.holds_apply (Module.fits_of_plan hr)
  have hrun : Body.run args r.summary.method.returnCategory.defaultCode [] = some v :=
    calc Body.run args r.summary.method.returnCategory.defaultCode []
        = Body.runOpcodes args r.summary.method.returnCategory.defaultOpcodes [] := Body.run_map_byte _ []
      _ = r.summary.method.returnCategory.default? := Body.runOpcodes_default _
      _ = some v := hv
  have heval := Body.evaluate_of_holds_tiny (ReturnCategory.wrapTiny_of_defaultBody hcategory) hholds hrun
  obtain ⟨header, code, hread, hcode, hran⟩ := Body.evaluate_eq_some_iff.1 heval
  exact ⟨v, hv, heval, header, code, hread, hcode, Body.ret_mem_of_run hran, hran⟩

/-- `F` of the small module returns zero and `G` nothing -/
theorem evaluate_patched_small :
    Body.evaluate (Small.patchF.1.apply Small.file) 360 [.int32 7, .null] = some (.value (.int32 0)) ∧
      Body.evaluate (Small.patchG.1.apply Small.file) 376 [] = some .nothing := by
  obtain ⟨v, hv, hF, -⟩ := evaluate_patched _ _ _ _ _ Small.patchBytes_F [.int32 7, .null]
  obtain ⟨w, hw, hG, -⟩ := evaluate_patched _ _ _ _ _ Small.patchBytes_G []
  cases hv
  cases hw
  exact ⟨hF, hG⟩

end CilPatch
