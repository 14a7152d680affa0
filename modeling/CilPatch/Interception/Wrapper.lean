/-
Wrappers: a method with hooks around its calls.

A call with the wrong number of arguments fails before anything else happens, and so does one whose arguments cannot be
copied. Otherwise the enter hook, the method and the exit hook run in this order in one guarded region: a fault in any
of them goes to the exception hook and then on to the caller. What the hooks and the method do to the state stays done
when a later step faults, so an action is a function from a state to an outcome and a state.
-/
import CilPatch.Interception.Shape

namespace CilPatch.Interception

/-- where an argument or an instance is stored -/
abbrev Place := Nat

/-- what is passed for a parameter: a value that nothing else can reach, or the storage of the caller -/
inductive Argument (V : Type) where
  | value (v : V)
  | place (p : Place)
  deriving DecidableEq, Repr

/-- what a call can fail with: its own check of the number of arguments, a result of a type that its caller did not
expect, or a fault of a copy, a hook or the method -/
inductive Fault (ε : Type) where
  | wrongCount (method : Text) (expected given : Nat)
  | wrongResult
  | raised (cause : ε)
  deriving DecidableEq, Repr

/-- the text of a fault, given the texts of the causes -/
def Fault.message {ε : Type} (causeMessage : ε → Text) : Fault ε → Text
  | .wrongCount method expected given =>
    method ++ Text.ascii " takes " ++ Text.decimal expected ++ Text.ascii " arguments but was given "
      ++ Text.decimal given
  | .wrongResult => Text.ascii "bad any_cast"
  | .raised cause => causeMessage cause

/-- a computation on a state that may fault; the state it reached is kept when it does -/
abbrev Action (σ ε α : Type) := ExceptT (Fault ε) (StateM σ) α

/-- what a call gives back: nothing, a value, or a reference to where a value is stored -/
inductive Returned (V : Type) where
  | nothing
  | value (v : V)
  | ref (p : Place)
  deriving DecidableEq, Repr

/-- a method that can be called with an instance and one argument for each parameter -/
structure Method (σ ε V : Type) where
  info : MethodInfo
  /-- copies all arguments, which may fault -/
  snapshot : List (Argument V) → Action σ ε (List V)
  invoke : Option Place → List (Argument V) → Action σ ε (Returned V)

/-- what every hook is told about the wrapper it runs for -/
structure Context (τ : Type) where
  method : MethodInfo
  tag : τ

/-- the hooks around a call; each gets the context, the instance and the copied arguments, and may be missing -/
structure Hooks (σ ε V τ : Type) where
  onEnter : Option (Context τ → Option Place → List V → Action σ ε Unit)
  onExit : Option (Context τ → Option Place → Returned V → List V → Action σ ε Unit)
  onException : Option (Context τ → Option Place → Fault ε → List V → Action σ ε Unit)

namespace Hooks

/-- no hook is set -/
def none {σ ε V τ : Type} : Hooks σ ε V τ := ⟨Option.none, Option.none, Option.none⟩

end Hooks

structure Wrapper (σ ε V τ : Type) where
  method : Method σ ε V
  hooks : Hooks σ ε V τ
  /-- handed to every hook -/
  tag : τ

namespace Wrapper

variable {σ ε V τ : Type}

def context (w : Wrapper σ ε V τ) : Context τ := ⟨w.method.info, w.tag⟩

/-- runs the enter hook if it is set -/
def enter (w : Wrapper σ ε V τ) (self : Option Place) (args : List V) : Action σ ε Unit :=
  match w.hooks.onEnter with
  | none => pure ()
  | some hook => hook w.context self args

/-- runs the exit hook if it is set -/
def exit (w : Wrapper σ ε V τ) (self : Option Place) (result : Returned V) (args : List V) : Action σ ε Unit :=
  match w.hooks.onExit with
  | none => pure ()
  | some hook => hook w.context self result args

/-- runs the exception hook if it is set -/
def exception (w : Wrapper σ ε V τ) (self : Option Place) (fault : Fault ε) (args : List V) : Action σ ε Unit :=
  match w.hooks.onException with
  | none => pure ()
  | some hook => hook w.context self fault args

/-- the guarded region; the hooks are told the copied arguments -/
def guarded (w : Wrapper σ ε V τ) (self : Option Place) (passed : List (Argument V)) (args : List V) :
    Action σ ε (Returned V) := do
  w.enter self args
  let result ← w.method.invoke self passed
  w.exit self result args
  return result

/-- reports a fault and passes it on -/
def rethrow (w : Wrapper σ ε V τ) (self : Option Place) (args : List V) (fault : Fault ε) :
    Action σ ε (Returned V) := do
  w.exception self fault args
  throw fault

/-- calls the method through the wrapper -/
def call (w : Wrapper σ ε V τ) (self : Option Place) (passed : List (Argument V)) : Action σ ε (Returned V) := do
  if passed.length ≠ w.method.info.parameters.length then
    throw (.wrongCount w.method.info.name w.method.info.parameters.length passed.length)
  else
    let args ← w.method.snapshot passed
    tryCatch (w.guarded self passed args) (w.rethrow self args)

end Wrapper

/-- a wrapper around the method, if it has one that can be wrapped -/
def wrap {σ ε V τ : Type} (method : Option (Method σ ε V)) (hooks : Hooks σ ε V τ) (tag : τ) :
    Except WrapError (Wrapper σ ε V τ) :=
  match method with
  | none => .error .noMethod
  | some m =>
    match m.info.refusal? with
    | some e => .error e
    | none => .ok ⟨m, hooks, tag⟩

end CilPatch.Interception
