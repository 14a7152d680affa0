/-
Arguments passed as values and arguments passed by slots.

A typed call passes values for by-value parameters, an untyped call passes slots that hold them. `At` says that a slot
passes an argument, and `Step.withArguments` forgets the difference in the steps of a call.
-/
import Mathlib.Data.List.Forall2
import CilPatch.Interception.Function
import CilPatch.Interception.Protocol

namespace CilPatch.Interception

variable {σ ε V τ ρ α : Type}

/-- the action gives the value and does nothing else -/
def Action.Gives (a : Action σ ε α) (x : α) : Prop := ∀ s, a.run s = (.ok x, s)

namespace Argument

/-- an argument for a parameter of the type: by-reference parameters take storage, others take a value -/
def Fits (t : TypeInfo) : Argument V → Prop
  | value _ => t.byRef = false
  | place _ => t.byRef = true

end Argument

end CilPatch.Interception
