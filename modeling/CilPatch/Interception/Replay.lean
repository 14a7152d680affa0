/-
What the parts of a call do to the state.

`Wrapper.Replays` runs the steps of a journal again, each in the state that the one before it has left.
`Transformer.Leaves` says what a run of a transformer does to the storage of its caller.
-/
import CilPatch.Interception.Transformer
import CilPatch.Interception.Protocol

namespace CilPatch.Interception

/-- the arguments that a hook was told; the method is told places -/
def Step.told? {ε V τ : Type} : Step ε V τ → Option (List V)
  | enter _ _ args _ => some args
  | method .. => none
  | exit _ _ _ args _ => some args
  | exception _ _ _ args _ => some args

/-! ## Steps and states -/

section

variable {σ ε V τ : Type}

/-- the part of a call that the step notes leads from `s` to `t`, and ends as noted -/
def Step.Runs (w : Wrapper σ ε V τ) (s t : σ) : Step ε V τ → Prop
  | enter context self args ending =>
    context = w.context ∧ ∃ hook ∈ w.hooks.onEnter, (hook context self args).run s = (ending, t)
  | method self passed ending => (w.method.invoke self passed).run s = (ending, t)
  | exit context self result args ending =>
    context = w.context ∧ ∃ hook ∈ w.hooks.onExit, (hook context self result args).run s = (ending, t)
  | exception context self fault args ending =>
    context = w.context ∧ ∃ hook ∈ w.hooks.onException, (hook context self fault args).run s = (ending, t)

/-- the steps lead from one state to the other when they run one after the other -/
inductive Wrapper.Replays (w : Wrapper σ ε V τ) : σ → List (Step ε V τ) → σ → Prop where
  | done (s : σ) : Replays w s [] s
  | step {s t u : σ} {step : Step ε V τ} {steps : List (Step ε V τ)} (hstep : step.Runs w s t)
      (hrest : Replays w t steps u) : Replays w s (step :: steps) u

end

/-! ## Transformers and storage -/

/-- the slots of the parameters that are by-reference, or of those that are not -/
def slotsPassed (byRef : Bool) (parameters : List TypeInfo) (slots : List Place) : List Place :=
  ((parameters.zip slots).filter fun (t, _) => t.byRef == byRef).map Prod.snd

namespace World

variable {V ρ : Type} [Inhabited V]

/-- what the parameters are bound to when slots are passed: by-reference ones to the slots, others to their values -/
def bound (w : World V ρ) : List TypeInfo → List Place → List (Argument V)
  | t :: ts, p :: ps => (if t.byRef then .place p else .value (w.read p)) :: bound w ts ps
  | _, _ => []

end World

namespace Transformer

variable {V ε ρ : Type} [Inhabited V]

/-- what the transformer makes of the values that it finds in its storage; it makes nothing of them when a by-value
argument cannot be copied -/
def effect (f : Transformer V ε ρ) (self : Option Place) (slots : List Place) (w : World V ρ) : Effect V ε ρ :=
  match (w.readAll (slotsPassed false f.parameters slots)).findSome? f.copyFault with
  | some cause => ⟨none, [], w.rest, .fault cause⟩
  | none => f.body ((f.function.selfPlace self).map w.read) (w.readAll slots) w.rest

/-- how a run of the transformer on its storage ends -/
def ending (f : Transformer V ε ρ) (self : Option Place) (slots : List Place) (w : World V ρ) :
    Except (Fault ε) (Returned V) :=
  ((f.effect self slots w).ending.outcome (f.function.selfPlace self) (w.bound f.parameters slots)).map
    f.function.result

/-- what the storage is like behind a run of the transformer -/
structure Leaves (f : Transformer V ε ρ) (self : Option Place) (slots : List Place) (e : Effect V ε ρ)
    (before after : World V ρ) : Prop where
  rest : after.rest = e.rest
  size : after.cells.length = before.cells.length
  /-- by-reference parameters are stored -/
  byReference : ∀ t p v, (t, p, v) ∈ f.parameters.zip (slots.zip e.args) → t.byRef → self ≠ some p →
    p < before.cells.length → after.cells[p]? = some v
  /-- by-value parameters are copies -/
  byValue : ∀ p ∈ slotsPassed false f.parameters slots, self ≠ some p → after.cells[p]? = before.cells[p]?
  /-- other cells are out of reach -/
  elsewhere : ∀ p ∉ slotsPassed true f.parameters slots, self ≠ some p → after.cells[p]? = before.cells[p]?
  /-- the instance is stored last -/
  atInstance : ∀ p v, self = some p → e.self = some v → p < before.cells.length → after.cells[p]? = some v

end Transformer

end CilPatch.Interception
