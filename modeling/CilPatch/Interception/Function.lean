/-
Functions as methods.

A function is a computation on memory and on whatever else there is. A parameter is bound to the storage of the caller
when it is by-reference, else to a copy, so what a function can reach through its parameters is up to its caller. There
are three ways to call it: directly (`Function.callDirect`), through an untyped wrapper that is passed the storage of
all arguments (`Wrapper.call` on `Function.method`), and through a typed wrapper (`Wrapper.callTyped`), which is passed
values for by-value parameters. A result that is a value leaves a wrapper in a box; a typed wrapper takes it out again.
Copying a value, boxing it and unboxing it are computations of the type of the value, and may fault.
-/
import CilPatch.Interception.Wrapper

namespace CilPatch.Interception

/-! ## Memory -/

/-- memory cells, addressed by place, and whatever else there is -/
structure World (V ρ : Type) where
  cells : List V
  rest : ρ
  deriving DecidableEq, Repr

namespace World

variable {V ρ : Type} [Inhabited V]

def read (w : World V ρ) (p : Place) : V := w.cells.getD p default

def readAll (w : World V ρ) (ps : List Place) : List V := ps.map w.read

def write (w : World V ρ) (p : Place) (v : V) : World V ρ := { w with cells := w.cells.set p v }

end World

/-- the value of an argument -/
def Argument.read {V ρ : Type} [Inhabited V] (w : World V ρ) : Argument V → V
  | value v => v
  | place p => w.read p

/-! ## Functions -/

structure Function (V ε ρ : Type) where
  parameters : List TypeInfo
  /-- the type it is a member of, if it is one -/
  owner : Option TypeInfo
  returns : TypeInfo
  /-- copies the value of an argument -/
  copy : V → Action (World V ρ) ε V
  /-- puts the value of a result into a box -/
  box : V → Action (World V ρ) ε V
  /-- takes it out again, if the box holds what the type of the result says -/
  unbox : V → Action (World V ρ) ε V
  body : Option Place → List (Argument V) → Action (World V ρ) ε (Returned V)

namespace Function

variable {V ε ρ : Type}

def info (f : Function V ε ρ) (name : Text) : MethodInfo :=
  ⟨name, f.owner.getD .blank, f.owner.isNone, false, f.parameters, f.returns⟩

/-- the instance a function works on: static functions have none -/
def selfPlace (f : Function V ε ρ) (self : Option Place) : Option Place := if f.owner.isSome then self else none

/-- a function without a result hands nothing back -/
def result (f : Function V ε ρ) (r : Returned V) : Returned V := if f.returns.isVoid then .nothing else r

/-- calls the function without any wrapper -/
def callDirect (f : Function V ε ρ) (self : Option Place) (args : List (Argument V)) :
    Action (World V ρ) ε (Returned V) := do
  let r ← f.body (f.selfPlace self) args
  return f.result r

/-- a result as a wrapper hands it on -/
def boxed (f : Function V ε ρ) : Returned V → Action (World V ρ) ε (Returned V)
  | .value v => do
    let x ← f.box v
    return .value x
  | r => return r

/-- a result as a typed caller gets it -/
def unboxed (f : Function V ε ρ) : Returned V → Action (World V ρ) ε (Returned V)
  | .value v => do
    let x ← f.unbox v
    return .value x
  | r => return r

variable [Inhabited V]

/-- copies of all arguments, in order -/
def snapshot (f : Function V ε ρ) : List (Argument V) → Action (World V ρ) ε (List V)
  | [] => return []
  | a :: as => do
    let v ← f.copy (a.read (← get))
    let vs ← f.snapshot as
    return v :: vs

/-- what a parameter is bound to -/
def bindOne (f : Function V ε ρ) (t : TypeInfo) (a : Argument V) : Action (World V ρ) ε (Argument V) :=
  if t.byRef then return a
  else do
    let v ← f.copy (a.read (← get))
    return .value v

/-- what the parameters are bound to, in order -/
def bindAll (f : Function V ε ρ) : List TypeInfo → List (Argument V) → Action (World V ρ) ε (List (Argument V))
  | t :: ts, a :: as => do
    let b ← f.bindOne t a
    let bs ← f.bindAll ts as
    return b :: bs
  | _, _ => return []

/-- binds the parameters, runs the function and boxes its result -/
def perform (f : Function V ε ρ) (self : Option Place) (passed : List (Argument V)) :
    Action (World V ρ) ε (Returned V) := do
  let bound ← f.bindAll f.parameters passed
  let r ← f.callDirect self bound
  f.boxed r

/-- the function under a name, to be wrapped -/
def method (f : Function V ε ρ) (name : Text) : Method (World V ρ) ε V := ⟨f.info name, f.snapshot, f.perform⟩

end Function

/-- calls the wrapper of a function as the function itself is called: with an instance only if it has one -/
def Wrapper.callTyped {V ε ρ τ : Type} (w : Wrapper (World V ρ) ε V τ) (f : Function V ε ρ) (self : Option Place)
    (args : List (Argument V)) : Action (World V ρ) ε (Returned V) := do
  let r ← w.call (f.selfPlace self) args
  f.unboxed r

end CilPatch.Interception
