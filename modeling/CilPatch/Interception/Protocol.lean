/-
Which parts of a call run, in which order, and what each is told.

`Wrapper.recorded` notes every run of a hook and of the method, with what it was told and how it ended. `Protocol` lists
the records that a call may leave once its arguments have been copied, and what its caller gets, by which hooks are set
and by the ways in which the method can end.
-/
import CilPatch.Interception.Wrapper

namespace CilPatch.Interception

/-- a part of a call that ran, what it was told, and how it ended -/
inductive Step (ε V τ : Type) where
  | enter (context : Context τ) (self : Option Place) (args : List V) (ending : Except (Fault ε) Unit)
  | method (self : Option Place) (passed : List (Argument V)) (ending : Except (Fault ε) (Returned V))
  | exit (context : Context τ) (self : Option Place) (result : Returned V) (args : List V)
      (ending : Except (Fault ε) Unit)
  | exception (context : Context τ) (self : Option Place) (fault : Fault ε) (args : List V)
      (ending : Except (Fault ε) Unit)

variable {σ ε V τ α : Type}

/-! ## Recording -/

/-- runs the action and notes the step that it makes -/
def Action.noting (a : Action σ ε α) (step : Except (Fault ε) α → Step ε V τ) :
    Action (σ × List (Step ε V τ)) ε α :=
  fun s =>
    let (ending, after) := a.run s.1
    (ending, (after, s.2 ++ [step ending]))

/-- runs the action, which makes no step -/
def Action.unnoted (a : Action σ ε α) : Action (σ × List (Step ε V τ)) ε α :=
  fun s =>
    let (ending, after) := a.run s.1
    (ending, (after, s.2))

namespace Hooks

/-- the hooks, each noting that it ran -/
def recorded (h : Hooks σ ε V τ) : Hooks (σ × List (Step ε V τ)) ε V τ where
  onEnter := h.onEnter.map fun hook context self args =>
    Action.noting (hook context self args) (.enter context self args)
  onExit := h.onExit.map fun hook context self result args =>
    Action.noting (hook context self result args) (.exit context self result args)
  onException := h.onException.map fun hook context self fault args =>
    Action.noting (hook context self fault args) (.exception context self fault args)

end Hooks

/-- the method, noting every run -/
def Method.recorded (τ : Type) (m : Method σ ε V) : Method (σ × List (Step ε V τ)) ε V where
  info := m.info
  snapshot := fun passed => Action.unnoted (m.snapshot passed)
  invoke := fun self passed => Action.noting (m.invoke self passed) (.method self passed)

/-- the wrapper around the recorded method, with recorded hooks -/
def Wrapper.recorded (w : Wrapper σ ε V τ) : Wrapper (σ × List (Step ε V τ)) ε V τ :=
  ⟨w.method.recorded τ, w.hooks.recorded, w.tag⟩

/-- the steps of a call, in order -/
def Wrapper.journal (w : Wrapper σ ε V τ) (self : Option Place) (passed : List (Argument V)) (s : σ) :
    List (Step ε V τ) :=
  ((w.recorded.call self passed).run (s, [])).2.2

/-! ## What a call may do -/

/-- the method can end like this: it does so in some state -/
def Method.CanEnd (m : Method σ ε V) (self : Option Place) (passed : List (Argument V))
    (ending : Except (Fault ε) (Returned V)) : Prop :=
  ∃ s, ((m.invoke self passed).run s).1 = ending

namespace Wrapper

/-- the enter hook, if it is set, has returned -/
def entered (w : Wrapper σ ε V τ) (self : Option Place) (args : List V) : List (Step ε V τ) :=
  if w.hooks.onEnter.isSome then [.enter w.context self args (.ok ())] else []

/-- the exit hook, if it is set, has returned -/
def exited (w : Wrapper σ ε V τ) (self : Option Place) (result : Returned V) (args : List V) : List (Step ε V τ) :=
  if w.hooks.onExit.isSome then [.exit w.context self result args (.ok ())] else []

end Wrapper

variable (w : Wrapper σ ε V τ) (self : Option Place) (passed : List (Argument V)) (args : List V)

/-- the steps of the guarded region, and what comes out of it -/
inductive Guarded : List (Step ε V τ) → Except (Fault ε) (Returned V) → Prop where
  | enterFault (f : Fault ε) (hset : w.hooks.onEnter.isSome) :
      Guarded [.enter w.context self args (.error f)] (.error f)
  | methodFault (f : Fault ε) (hend : w.method.CanEnd self passed (.error f)) :
      Guarded (w.entered self args ++ [.method self passed (.error f)]) (.error f)
  | exitFault (r : Returned V) (f : Fault ε) (hend : w.method.CanEnd self passed (.ok r))
      (hset : w.hooks.onExit.isSome) :
      Guarded (w.entered self args ++ [.method self passed (.ok r), .exit w.context self r args (.error f)]) (.error f)
  | returned (r : Returned V) (hend : w.method.CanEnd self passed (.ok r)) :
      Guarded (w.entered self args ++ .method self passed (.ok r) :: w.exited self r args) (.ok r)

/-- the steps of a whole call whose arguments have been copied, and what its caller gets -/
inductive Protocol : List (Step ε V τ) → Except (Fault ε) (Returned V) → Prop where
  | returned (steps : List (Step ε V τ)) (r : Returned V) (h : Guarded w self passed args steps (.ok r)) :
      Protocol steps (.ok r)
  | unreported (steps : List (Step ε V τ)) (f : Fault ε) (h : Guarded w self passed args steps (.error f))
      (hunset : w.hooks.onException.isNone) : Protocol steps (.error f)
  | reported (steps : List (Step ε V τ)) (f : Fault ε) (h : Guarded w self passed args steps (.error f))
      (hset : w.hooks.onException.isSome) :
      Protocol (steps ++ [.exception w.context self f args (.ok ())]) (.error f)
  | replaced (steps : List (Step ε V τ)) (f g : Fault ε) (h : Guarded w self passed args steps (.error f))
      (hset : w.hooks.onException.isSome) :
      Protocol (steps ++ [.exception w.context self f args (.error g)]) (.error g)

end CilPatch.Interception
