/-
Functions that reach nothing but their parameters.

A transformer is a function that is given the values of its instance and its parameters and answers with what becomes of
them. What it makes of by-reference parameters and of the instance is stored where they are; by-value parameters are
copies, and copying a value may fault.
-/
import CilPatch.Interception.Function

namespace CilPatch.Interception

/-- how a transformer ends -/
inductive Ending (V ε : Type) where
  | nothing
  | value (v : V)
  /-- a reference to the instance -/
  | instanceRef
  /-- a reference to what a parameter is bound to -/
  | parameterRef (index : Nat)
  /-- a reference to a fixed place -/
  | placeRef (p : Place)
  | fault (cause : ε)
  deriving DecidableEq, Repr

/-- a reference to the storage of an argument, if it has any -/
def Argument.returned {V : Type} : Argument V → Returned V
  | value _ => .nothing
  | place p => .ref p

/-- the outcome of an ending, given the instance and what the parameters are bound to -/
def Ending.outcome {V ε : Type} (self : Option Place) (bound : List (Argument V)) :
    Ending V ε → Except (Fault ε) (Returned V)
  | nothing => .ok .nothing
  | value v => .ok (.value v)
  | instanceRef => .ok (self.elim .nothing .ref)
  | parameterRef i => .ok ((bound[i]?).elim .nothing Argument.returned)
  | placeRef p => .ok (.ref p)
  | fault cause => .error (.raised cause)

/-- what a transformer leaves behind: its instance, its parameters, all else, and how it ended -/
structure Effect (V ε ρ : Type) where
  self : Option V
  args : List V
  rest : ρ
  ending : Ending V ε
  deriving DecidableEq, Repr

structure Transformer (V ε ρ : Type) where
  parameters : List TypeInfo
  /-- the type it is a member of, if it is one -/
  owner : Option TypeInfo
  returns : TypeInfo
  /-- what copying a value faults with -/
  copyFault : V → Option ε
  body : Option V → List V → ρ → Effect V ε ρ

/-! ## Storage -/

namespace Argument

variable {V ρ : Type}

/-- stores what became of a parameter -/
def store (w : World V ρ) : Argument V → V → World V ρ
  | value _, _ => w
  | place p, v => w.write p v

/-- stores what became of the parameters -/
def storeAll : List (Argument V) → List V → World V ρ → World V ρ
  | a :: as, v :: vs, w => storeAll as vs (a.store w v)
  | _, _, w => w

end Argument

namespace Transformer

variable {V ε ρ : Type}

/-- the world after the transformer has left the instance -/
def storeSelf (self : Option Place) (v : Option V) (w : World V ρ) : World V ρ :=
  match self, v with
  | some p, some v => w.write p v
  | _, _ => w

/-- stores all that became of the values -/
def storeEffect (self : Option Place) (bound : List (Argument V)) (e : Effect V ε ρ) (w : World V ρ) : World V ρ :=
  storeSelf self e.self (Argument.storeAll bound e.args { w with rest := e.rest })

def copy (f : Transformer V ε ρ) (v : V) : Action (World V ρ) ε V :=
  match f.copyFault v with
  | some cause => throw (.raised cause)
  | none => return v

/-- runs the transformer on what its parameters are bound to -/
def run [Inhabited V] (f : Transformer V ε ρ) (self : Option Place) (bound : List (Argument V)) :
    Action (World V ρ) ε (Returned V) :=
  fun w =>
    let e := f.body (self.map w.read) (bound.map (Argument.read w)) w.rest
    (e.ending.outcome self bound, storeEffect self bound e w)

/-- the transformer as a function, whose results go into boxes and come out of them as they are -/
def function [Inhabited V] (f : Transformer V ε ρ) : Function V ε ρ :=
  ⟨f.parameters, f.owner, f.returns, f.copy, fun v => return v, fun v => return v, f.run⟩

end Transformer

end CilPatch.Interception
