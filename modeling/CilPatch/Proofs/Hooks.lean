/-
The hook protocol of a call.

Recording changes nothing about a call but the journal it keeps, and the journal and the result follow `Protocol` once
the arguments have been copied. `RecordedBy` carries this through: it holds of every hook and of the method, and of
actions in a row and behind a handler when it holds of their parts. So each part of a call is looked at once, and the
ways in which the parts can end are combined by `RecordedBy.bind` and `RecordedBy.tryCatch`.

- `Wrapper.guarded_recordedBy`, `Wrapper.tryCatch_recordedBy`: the guarded region, and the region with its handler;
- `Wrapper.call_protocol`: every call, with any hooks and any number of arguments;
- `Wrapper.call_protocol_unguarded`: what stands outside the guarded region.
-/
import Mathlib.Tactic
import CilPatch.Interception.Protocol
import CilPatch.Interception.Transformer

namespace CilPatch.Interception

variable {σ ε V τ α β : Type}

/-! ## Running actions -/

namespace Action

/-- the second action runs in the state that the first one leaves, unless that one faults -/
theorem run_bind (a : Action σ ε α) (f : α → Action σ ε β) (s : σ) :
    (a >>= f).run s = match a.run s with
      | (.ok x, t) => (f x).run t
      | (.error e, t) => (.error e, t) := by
  unfold ExceptT.run
  simp only [bind, ExceptT.bind, ExceptT.mk, StateT.bind, ExceptT.bindCont]
  rcases a s with ⟨_ | _, t⟩ <;> rfl

/-- the handler runs in the state that a fault leaves -/
theorem run_tryCatch (a : Action σ ε α) (handler : Fault ε → Action σ ε α) (s : σ) :
    (tryCatch a handler).run s = match a.run s with
      | (.ok x, t) => (.ok x, t)
      | (.error e, t) => (handler e).run t := by
  unfold ExceptT.run
  simp only [tryCatch, tryCatchThe, MonadExceptOf.tryCatch, ExceptT.tryCatch, ExceptT.mk, bind, StateT.bind]
  rcases a s with ⟨_ | _, t⟩ <;> rfl

end Action

/-! ## Recorded actions -/

/-- the second action does what the first one does, and notes steps that fit how it ends -/
def RecordedBy (a : Action σ ε α) (r : Action (σ × List (Step ε V τ)) ε α)
    (Notes : List (Step ε V τ) → Except (Fault ε) α → Prop) : Prop :=
  ∀ s journal, ∃ steps,
    r.run (s, journal) = ((a.run s).1, ((a.run s).2, journal ++ steps)) ∧ Notes steps (a.run s).1

namespace RecordedBy

variable {a : Action σ ε α} {r : Action (σ × List (Step ε V τ)) ε α}
  {P : List (Step ε V τ) → Except (Fault ε) α → Prop}

/-- an action that neither faults nor changes anything notes nothing -/
theorem pure (x : α) : RecordedBy (Pure.pure x : Action σ ε α) (Pure.pure x : Action (σ × List (Step ε V τ)) ε α)
    fun steps ending => steps = [] ∧ ending = .ok x := by
  intro s journal
  refine ⟨[], ?_, rfl, rfl⟩
  rw [List.append_nil]
  rfl

/-- neither does a fault that is thrown on -/
theorem throw (f : Fault ε) : RecordedBy (throw f : Action σ ε α) (throw f : Action (σ × List (Step ε V τ)) ε α)
    fun steps ending => steps = [] ∧ ending = .error f := by
  intro s journal
  refine ⟨[], ?_, rfl, rfl⟩
  rw [List.append_nil]
  rfl

/-- an action that notes its one step -/
theorem noting (a : Action σ ε α) (step : Except (Fault ε) α → Step ε V τ) :
    RecordedBy a (a.noting step) fun steps ending => steps = [step ending] ∧ ∃ s, (a.run s).1 = ending := by
  intro s journal
  exact ⟨[step (a.run s).1], rfl, rfl, s, rfl⟩

/-- one action after the other: when both are recorded, their steps follow one another -/
theorem bind (h : RecordedBy a r P) {f : α → Action σ ε β} {g : α → Action (σ × List (Step ε V τ)) ε β}
    {Q : α → List (Step ε V τ) → Except (Fault ε) β → Prop} (hf : ∀ x, RecordedBy (f x) (g x) (Q x))
    {R : List (Step ε V τ) → Except (Fault ε) β → Prop}
    (hfault : ∀ steps e, P steps (.error e) → R steps (.error e))
    (hok : ∀ steps x rest ending, P steps (.ok x) → Q x rest ending → R (steps ++ rest) ending) :
    RecordedBy (a >>= f) (r >>= g) R := by
  intro s journal
  obtain ⟨steps, hrun, hsteps⟩ := h s journal
  rw [Action.run_bind, Action.run_bind, hrun]
  -- `hsteps` speaks of the ending that the cases are about
  generalize a.run s = left at hsteps
  rcases left with ⟨e | x, t⟩
  · exact ⟨steps, rfl, hfault steps e hsteps⟩
  · obtain ⟨rest, hrest, hnotes⟩ := hf x t (journal ++ steps)
    rw [List.append_assoc] at hrest
    exact ⟨steps ++ rest, hrest, hok steps x rest _ hsteps hnotes⟩

/-- a handler behind an action: its steps come last, and only after a fault -/
theorem tryCatch (h : RecordedBy a r P) {f : Fault ε → Action σ ε α} {g : Fault ε → Action (σ × List (Step ε V τ)) ε α}
    {Q : Fault ε → List (Step ε V τ) → Except (Fault ε) α → Prop} (hf : ∀ e, RecordedBy (f e) (g e) (Q e))
    {R : List (Step ε V τ) → Except (Fault ε) α → Prop}
    (hok : ∀ steps x, P steps (.ok x) → R steps (.ok x))
    (hfault : ∀ steps e rest ending, P steps (.error e) → Q e rest ending → R (steps ++ rest) ending) :
    RecordedBy (tryCatch a f) (tryCatch r g) R := by
  intro s journal
  obtain ⟨steps, hrun, hsteps⟩ := h s journal
  rw [Action.run_tryCatch, Action.run_tryCatch, hrun]
  generalize a.run s = left at hsteps
  rcases left with ⟨e | x, t⟩
  · obtain ⟨rest, hrest, hnotes⟩ := hf e t (journal ++ steps)
    rw [List.append_assoc] at hrest
    exact ⟨steps ++ rest, hrest, hfault steps e rest _ hsteps hnotes⟩
  · exact ⟨steps, rfl, hok steps x hsteps⟩

end RecordedBy

/-! ## Hooks -/

/-- a hook that is set notes its step; one that is missing notes nothing and cannot fault -/
def HookNotes (isSet : Bool) (step : Except (Fault ε) Unit → Step ε V τ) (steps : List (Step ε V τ))
    (ending : Except (Fault ε) Unit) : Prop :=
  if isSet then steps = [step ending] else steps = [] ∧ ending = .ok ()

namespace HookNotes

variable {isSet : Bool} {step : Except (Fault ε) Unit → Step ε V τ} {steps : List (Step ε V τ)}

theorem of_ok (h : HookNotes isSet step steps (.ok ())) : steps = if isSet then [step (.ok ())] else [] := by
  unfold HookNotes at h
  split_ifs at h ⊢
  · exact h
  · exact h.1

theorem of_error {f : Fault ε} (h : HookNotes isSet step steps (.error f)) :
    isSet = true ∧ steps = [step (.error f)] := by
  unfold HookNotes at h
  split_ifs at h with hset
  · exact ⟨hset, h⟩
  · cases h.2

end HookNotes

namespace Wrapper

variable (w : Wrapper σ ε V τ) (self : Option Place) (passed : List (Argument V)) (args : List V)

theorem enter_recordedBy :
    RecordedBy (w.enter self args) (w.recorded.enter self args)
      (HookNotes w.hooks.onEnter.isSome (.enter w.context self args)) := by
  unfold enter recorded Hooks.recorded
  cases w.hooks.onEnter with
  | none => exact .pure ()
  | some run => exact fun s journal => ⟨_, rfl, rfl⟩

theorem exit_recordedBy (result : Returned V) :
    RecordedBy (w.exit self result args) (w.recorded.exit self result args)
      (HookNotes w.hooks.onExit.isSome (.exit w.context self result args)) := by
  unfold exit recorded Hooks.recorded
  cases w.hooks.onExit with
  | none => exact .pure ()
  | some run => exact fun s journal => ⟨_, rfl, rfl⟩

theorem exception_recordedBy (fault : Fault ε) :
    RecordedBy (w.exception self fault args) (w.recorded.exception self fault args)
      (HookNotes w.hooks.onException.isSome (.exception w.context self fault args)) := by
  unfold exception recorded Hooks.recorded
  cases w.hooks.onException with
  | none => exact .pure ()
  | some run => exact fun s journal => ⟨_, rfl, rfl⟩

/-! ### The guarded region and its handler -/

/-- the steps of the guarded region are those of `Guarded` -/
theorem guarded_recordedBy : RecordedBy (w.guarded self passed args) (w.recorded.guarded self passed args)
    (Guarded w self passed args) := by
  -- the exit hook comes with the result it was told
  have hexit (r : Returned V) : RecordedBy (w.exit self r args >>= fun _ => pure r)
      (w.recorded.exit self r args >>= fun _ => pure r) fun steps ending =>
        ∃ e, HookNotes w.hooks.onExit.isSome (.exit w.context self r args) steps e ∧ ending = e.map fun _ => r := by
    refine (w.exit_recordedBy self args r).bind (fun _ => .pure r) (fun steps f h => ⟨_, h, rfl⟩) ?_
    rintro steps x rest ending h ⟨rfl, rfl⟩
    exact ⟨_, by rwa [List.append_nil], rfl⟩
  have hmethod : RecordedBy (w.method.invoke self passed) (w.recorded.method.invoke self passed)
      fun steps ending => steps = [.method self passed ending] ∧ w.method.CanEnd self passed ending :=
    .noting _ _
  -- behind an enter hook that returned, the other two make up the rest of the guarded region
  have hrest : RecordedBy (w.method.invoke self passed >>= fun r => w.exit self r args >>= fun _ => pure r)
      (w.recorded.method.invoke self passed >>= fun r => w.recorded.exit self r args >>= fun _ => pure r)
      fun steps ending => Guarded w self passed args (w.entered self args ++ steps) ending := by
    refine hmethod.bind hexit ?_ ?_
    · rintro steps f ⟨rfl, hend⟩
      exact .methodFault f hend
    · rintro steps r rest ending ⟨rfl, hend⟩ ⟨e, hnotes, rfl⟩
      rcases e with f | ⟨⟩
      · obtain ⟨hset, rfl⟩ := hnotes.of_error
        exact .exitFault r f hend hset
      · rw [hnotes.of_ok]
        exact .returned r hend
  refine (w.enter_recordedBy self args).bind (fun _ => hrest) ?_ ?_
  · intro steps f hnotes
    obtain ⟨hset, rfl⟩ := hnotes.of_error
    exact .enterFault f hset
  · intro steps _ rest ending hnotes hguarded
    rw [hnotes.of_ok]
    exact hguarded

theorem rethrow_recordedBy (fault : Fault ε) :
    RecordedBy (w.rethrow self args fault) (w.recorded.rethrow self args fault) fun steps ending =>
      ∃ e, HookNotes w.hooks.onException.isSome (.exception w.context self fault args) steps e ∧
        ending = e.bind fun _ => .error fault := by
  refine (w.exception_recordedBy self args fault).bind
    (fun _ => .throw fault) (fun steps f h => ⟨_, h, rfl⟩) ?_
  rintro steps x rest ending h ⟨rfl, rfl⟩
  exact ⟨_, by rwa [List.append_nil], rfl⟩

/-- the region with its handler makes up the protocol -/
theorem tryCatch_recordedBy : RecordedBy (tryCatch (w.guarded self passed args) (w.rethrow self args))
    (tryCatch (w.recorded.guarded self passed args) (w.recorded.rethrow self args)) (Protocol w self passed args) := by
  refine (w.guarded_recordedBy self passed args).tryCatch (w.rethrow_recordedBy self args)
    (fun steps r h => .returned steps r h) ?_
  rintro steps f rest ending h ⟨e, hnotes, rfl⟩
  rcases e with g | ⟨⟩
  · obtain ⟨hset, rfl⟩ := hnotes.of_error
    exact .replaced steps f g h hset
  · by_cases hset : w.hooks.onException.isSome
    · rw [hnotes.of_ok, if_pos hset]
      exact .reported steps f h hset
    · rw [hnotes.of_ok, if_neg hset, List.append_nil]
      exact .unreported steps f h (by simpa using hset)

/-! ### Counting and copying the arguments -/

theorem run_call_of_length_ne (h : passed.length ≠ w.method.info.parameters.length) (s : σ) :
    (w.call self passed).run s =
      (.error (.wrongCount w.method.info.name w.method.info.parameters.length passed.length), s) := by
  rw [call, if_pos h]
  rfl

variable {w self passed args} {s t : σ}

theorem run_call_of_copied (h : passed.length = w.method.info.parameters.length)
    (hcopied : (w.method.snapshot passed).run s = (.ok args, t)) :
    (w.call self passed).run s = (tryCatch (w.guarded self passed args) (w.rethrow self args)).run t := by
  rw [call, if_neg (not_not.2 h), Action.run_bind, hcopied]

/-- a fault of a copy leaves the call at once -/
theorem run_call_of_uncopied {f : Fault ε} (h : passed.length = w.method.info.parameters.length)
    (hcopied : (w.method.snapshot passed).run s = (.error f, t)) : (w.call self passed).run s = (.error f, t) := by
  rw [call, if_neg (not_not.2 h), Action.run_bind, hcopied]

end Wrapper

/-! ## The result that the exit hook is told -/

section

variable {w : Wrapper σ ε V τ} {self : Option Place} {passed : List (Argument V)} {args : List V} {steps : List (Step ε V τ)}
  {c : Context τ} {p : Option Place} {r : Returned V} {as : List V} {e : Except (Fault ε) Unit}

theorem Wrapper.exit_notMem_entered : .exit c p r as e ∉ w.entered self args := by
  unfold entered
  split_ifs <;> simp

theorem Wrapper.eq_of_exit_mem_exited {r' : Returned V} (h : .exit c p r as e ∈ w.exited self r' args) : r = r' := by
  unfold exited at h
  split_ifs at h
  · cases List.mem_singleton.1 h
    rfl
  · cases h

theorem Guarded.canEnd_of_exit {result : Except (Fault ε) (Returned V)} (h : Guarded w self passed args steps result)
    (hexit : .exit c p r as e ∈ steps) : w.method.CanEnd self passed (.ok r) := by
  cases h with
  | enterFault f hset => simp at hexit
  | methodFault f hend => simp [Wrapper.exit_notMem_entered] at hexit
  | exitFault r' f hend hset =>
    simp only [List.mem_append, Wrapper.exit_notMem_entered, List.mem_cons, List.not_mem_nil, or_false, false_or,
      reduceCtorEq, Step.exit.injEq] at hexit
    exact hexit.2.2.1 ▸ hend
  | returned r' hend =>
    simp only [List.mem_append, Wrapper.exit_notMem_entered, List.mem_cons, false_or, reduceCtorEq] at hexit
    exact Wrapper.eq_of_exit_mem_exited hexit ▸ hend

theorem Protocol.canEnd_of_exit {result : Except (Fault ε) (Returned V)} (h : Protocol w self passed args steps result)
    (hexit : .exit c p r as e ∈ steps) : w.method.CanEnd self passed (.ok r) := by
  cases h with
  | returned _ _ h => exact h.canEnd_of_exit hexit
  | unreported _ f h => exact h.canEnd_of_exit hexit
  | reported steps f h =>
    simp only [List.mem_append, List.mem_singleton, reduceCtorEq, or_false] at hexit
    exact h.canEnd_of_exit hexit
  | replaced steps f g h =>
    simp only [List.mem_append, List.mem_singleton, reduceCtorEq, or_false] at hexit
    exact h.canEnd_of_exit hexit

end

/-- a function without a result has nothing to hand back -/
theorem Function.eq_nothing_of_canEnd {V ε ρ : Type} [Inhabited V] {f : Function V ε ρ} (hvoid : f.returns.isVoid)
    {name : Text} {self : Option Place} {passed : List (Argument V)} {r : Returned V}
    (h : (f.method name).CanEnd self passed (.ok r)) : r = .nothing := by
  obtain ⟨s, hs⟩ := h
  have hdirect (bound : List (Argument V)) : f.callDirect self bound >>= f.boxed =
      f.body (f.selfPlace self) bound >>= fun _ => pure .nothing := by
    unfold callDirect result
    simp only [hvoid, if_true, bind_assoc, pure_bind]
    rfl
  change ((f.bindAll f.parameters passed >>= fun bound => f.callDirect self bound >>= f.boxed).run s).1 = _ at hs
  simp only [hdirect, Action.run_bind] at hs
  generalize (f.bindAll f.parameters passed).run s = bound at hs
  rcases bound with ⟨e | bound, t⟩
  · cases hs
  · dsimp only at hs
    generalize (f.body (f.selfPlace self) bound).run t = left at hs
    rcases left with ⟨e | x, u⟩
    · cases hs
    · exact (Except.ok.inj hs).symm

/-! ## Calls -/

namespace Wrapper

variable {w : Wrapper σ ε V τ} {self : Option Place} {passed : List (Argument V)} {s t : σ}

/-- once the arguments have been copied, the call and its recording go hand in hand -/
theorem call_recorded {args : List V} (h : passed.length = w.method.info.parameters.length)
    (hcopied : (w.method.snapshot passed).run s = (.ok args, t)) :
    (w.recorded.call self passed).run (s, []) =
        (((w.call self passed).run s).1, ((w.call self passed).run s).2, w.journal self passed s) ∧
      Protocol w self passed args (w.journal self passed s) ((w.call self passed).run s).1 := by
  obtain ⟨steps, hrun, hprotocol⟩ := w.tryCatch_recordedBy self passed args t []
  rw [← run_call_of_copied h hcopied] at hrun hprotocol
  have hcopied' : (w.recorded.method.snapshot passed).run (s, []) = (.ok args, t, []) := by
    change (((w.method.snapshot passed).run s).1, ((w.method.snapshot passed).run s).2, _) = _
    rw [hcopied]
  have hsame : (w.recorded.call self passed).run (s, []) =
      (((w.call self passed).run s).1, ((w.call self passed).run s).2, steps) :=
    calc (w.recorded.call self passed).run (s, [])
        = (tryCatch (w.recorded.guarded self passed args) (w.recorded.rethrow self args)).run (t, []) :=
          run_call_of_copied h hcopied'
      _ = (((w.call self passed).run s).1, ((w.call self passed).run s).2, steps) := hrun
  have hjournal : w.journal self passed s = steps := by rw [journal, hsame]
  rw [hjournal]
  exact ⟨hsame, hprotocol⟩

/-- nothing runs when the arguments cannot be copied -/
theorem recorded_of_uncopied {f : Fault ε} (self : Option Place) (h : passed.length = w.method.info.parameters.length)
    (hcopied : (w.method.snapshot passed).run s = (.error f, t)) :
    (w.recorded.call self passed).run (s, []) = (.error f, t, []) ∧ w.journal self passed s = [] := by
  have hcopied' : (w.recorded.method.snapshot passed).run (s, []) = (.error f, t, []) := by
    change (((w.method.snapshot passed).run s).1, ((w.method.snapshot passed).run s).2, _) = _
    rw [hcopied]
  have hrun : (w.recorded.call self passed).run (s, []) = (.error f, t, []) := run_call_of_uncopied h hcopied'
  exact ⟨hrun, by rw [journal, hrun]⟩

/-- nor when there are too few or too many of them -/
theorem recorded_of_length_ne (self : Option Place) (h : passed.length ≠ w.method.info.parameters.length) (s : σ) :
    (w.recorded.call self passed).run (s, []) =
        (.error (.wrongCount w.method.info.name w.method.info.parameters.length passed.length), s, []) ∧
      w.journal self passed s = [] := by
  have hrun := w.recorded.run_call_of_length_ne self passed h (s, [])
  exact ⟨hrun, by rw [journal, hrun]⟩

/-- recording a call changes neither its result nor the state it leaves -/
theorem run_recorded (w : Wrapper σ ε V τ) (self : Option Place) (passed : List (Argument V)) (s : σ) :
    (w.recorded.call self passed).run (s, []) =
      (((w.call self passed).run s).1, ((w.call self passed).run s).2, w.journal self passed s) := by
  by_cases h : passed.length = w.method.info.parameters.length
  · rcases hcopied : (w.method.snapshot passed).run s with ⟨f | args, t⟩
    · obtain ⟨hrun, hnone⟩ := recorded_of_uncopied self h hcopied
      rw [hrun, hnone, run_call_of_uncopied h hcopied]
    · exact (call_recorded h hcopied).1
  · obtain ⟨hrun, hnone⟩ := recorded_of_length_ne self h s
    rw [hrun, hnone, w.run_call_of_length_ne self passed h]

end Wrapper

namespace Small

/-- both hooks behind the method fault, each with a cause of its own -/
def hooks : Hooks (World Int Unit) Int Int Unit where
  onEnter := some fun _ _ _ => pure ()
  onExit := some fun _ _ _ _ => throw (.raised 1)
  onException := some fun _ _ _ _ => throw (.raised 2)

/-- a function without parameters and without a result -/
def quiet : Transformer Int Int Unit :=
  ⟨[], none, ⟨0, false, true, false⟩, fun _ => none, fun _ args rest => ⟨none, args, rest, .nothing⟩⟩

/-- a wrapper around it -/
def quietly : Wrapper (World Int Unit) Int Int Unit := ⟨quiet.function.method (Text.ascii "quiet"), hooks, ()⟩

end Small

/-- **The hook protocol.** Recording a call changes neither its result nor the state it leaves. With a wrong number of
arguments the call fails and no part of it runs, and so it does when they cannot be copied: the fault of the copy goes to
the caller. Otherwise the journal and the result of the call follow `Protocol`. What the exit hook is told of a function
without a result is empty. -/
theorem Wrapper.call_protocol :
    (∀ {σ ε V τ : Type} (w : Wrapper σ ε V τ) (self : Option Place) (passed : List (Argument V)) (s : σ),
      (w.recorded.call self passed).run (s, []) =
          (((w.call self passed).run s).1, ((w.call self passed).run s).2, w.journal self passed s) ∧
        (passed.length ≠ w.method.info.parameters.length →
          (w.call self passed).run s =
              (.error (.wrongCount w.method.info.name w.method.info.parameters.length passed.length), s) ∧
            w.journal self passed s = []) ∧
        (passed.length = w.method.info.parameters.length →
          (∀ f t, (w.method.snapshot passed).run s = (.error f, t) →
            (w.call self passed).run s = (.error f, t) ∧ w.journal self passed s = []) ∧
          ∀ args t, (w.method.snapshot passed).run s = (.ok args, t) →
            Protocol w self passed args (w.journal self passed s) ((w.call self passed).run s).1)) ∧
    ∀ {ε V τ ρ : Type} [Inhabited V] (f : Function V ε ρ) (name : Text) (hooks : Hooks (World V ρ) ε V τ) (tag : τ)
      (self : Option Place) (passed : List (Argument V)) (s : World V ρ), f.returns.isVoid →
      ∀ c p r as e, .exit c p r as e ∈ Wrapper.journal ⟨f.method name, hooks, tag⟩ self passed s → r = .nothing := by
  refine ⟨fun w self passed s => ⟨w.run_recorded self passed s, fun h => ?_, fun h => ⟨?_, ?_⟩⟩, ?_⟩
  · exact ⟨w.run_call_of_length_ne self passed h s, (recorded_of_length_ne self h s).2⟩
  · exact fun f t hcopied => ⟨run_call_of_uncopied h hcopied, (recorded_of_uncopied self h hcopied).2⟩
  · exact fun args t hcopied => (call_recorded h hcopied).2
  · intro ε V τ ρ _ f name hooks tag self passed s hvoid c p r as e hexit
    let w : Wrapper _ _ _ _ := ⟨f.method name, hooks, tag⟩
    by_cases h : passed.length = w.method.info.parameters.length
    · rcases hcopied : (w.method.snapshot passed).run s with ⟨fault | args, t⟩
      · rw [(recorded_of_uncopied self h hcopied).2] at hexit
        cases hexit
      · exact Function.eq_nothing_of_canEnd hvoid ((call_recorded h hcopied).2.canEnd_of_exit hexit)
    · rw [(recorded_of_length_ne self h s).2] at hexit
      cases hexit

/-- both faulting hooks run, the last fault is the one that comes out, and one argument too many is refused -/
theorem Wrapper.call_protocol_small :
    let w := Small.quietly
    let s : World Int Unit := ⟨[], ()⟩
    ((w.call none []).run s).1 = .error (.raised 2) ∧
      Protocol w none [] [] (w.journal none [] s) (.error (.raised 2)) ∧
      w.journal none [] s =
        [.enter w.context none [] (.ok ()), .method none [] (.ok .nothing),
          .exit w.context none .nothing [] (.error (.raised 1)),
          .exception w.context none (.raised 1) [] (.error (.raised 2))] ∧
      (w.call none [.value 4]).run s = (.error (.wrongCount (Text.ascii "quiet") 0 1), s) ∧
      w.journal none [.value 4] s = [] ∧
      ∀ c p r as e, .exit c p r as e ∈ w.journal none [] s → r = .nothing := by
  intro w s
  have hwrong := (Wrapper.call_protocol.1 w none [.value 4] s).2.1 (by decide)
  have hright := ((Wrapper.call_protocol.1 w none [] s).2.2 rfl).2 [] s rfl
  have hvoid := Wrapper.call_protocol.2 Small.quiet.function (Text.ascii "quiet") Small.hooks () none [] s rfl
  exact ⟨rfl, hright, rfl, hwrong.1, hwrong.2, hvoid⟩

namespace Small

/-- hooks that do nothing -/
def idle : Hooks Unit Int Int Unit where
  onEnter := some fun _ _ _ => pure ()
  onExit := some fun _ _ _ _ => pure ()
  onException := some fun _ _ _ _ => pure ()

/-- a method with one parameter, which cannot be copied -/
def uncopied : Wrapper Unit Int Int Unit where
  method.info := ⟨Text.ascii "uncopied", .blank, true, false, [.blank], .blank⟩
  method.snapshot _ := throw (.raised 1)
  method.invoke _ _ := pure .nothing
  hooks := idle
  tag := ()

/-- a method that is declared to have no result and hands one back -/
def talkative : Wrapper Unit Int Int Unit where
  method.info := ⟨Text.ascii "talkative", .blank, true, false, [], ⟨0, false, true, false⟩⟩
  method.snapshot _ := pure []
  method.invoke _ _ := pure (.value 5)
  hooks := idle
  tag := ()

end Small

/-- what stands outside the guarded region: a fault of a copy is not reported and keeps the enter hook and the method
from running, and a method that hands back a value has it told to the exit hook whatever it is declared to return -/
theorem Wrapper.call_protocol_unguarded :
    ([Argument.value 7].length = Small.uncopied.method.info.parameters.length ∧
      Small.uncopied.hooks.onEnter.isSome ∧ Small.uncopied.hooks.onException.isSome ∧
      ((Small.uncopied.call none [.value 7]).run ()).1 = .error (.raised 1) ∧
      Small.uncopied.journal none [.value 7] () = []) ∧
    Small.talkative.method.info.returns.isVoid ∧
      .exit Small.talkative.context none (.value 5) [] (.ok ()) ∈ Small.talkative.journal none [] () :=
  ⟨⟨rfl, rfl, rfl, rfl, rfl⟩, rfl, .tail _ (.tail _ (.head _))⟩

end CilPatch.Interception
