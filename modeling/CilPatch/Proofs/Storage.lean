/-
What hooks, method and caller see of the arguments.

The hooks of a call are told the values that the arguments had when the call started. The method works on what the
enter hook has left in the storage, and what a transformer stores reaches its by-reference parameters and its instance
only. The storage behind a call is what its parts make of it, one after the other, also when one of them faults.

- `Wrapper.call_moves`: what every part of a call keeps to, the call keeps to;
- `Wrapper.noted_journal`: the steps of a call lead from the state behind the copying to the state at its end;
- `Wrapper.runs_once`: where the method runs, and on which state;
- `Transformer.run_perform`, `Transformer.perform_leaves`: what a run of a transformer does to storage;
- `Wrapper.call_congr`: a call asks the method about a single state;
- `Wrapper.call_storage`: all of this about calls of transformers.
-/
import Mathlib.Tactic
import CilPatch.Interception.Replay
import CilPatch.Proofs.Hooks

namespace CilPatch.Interception

variable {σ ε V τ ρ α β : Type}

/-! ## The parts of a call and the call -/

/-- the action leads from every state to one that is related to it, also when it faults -/
def Action.Moves (R : σ → σ → Prop) (a : Action σ ε α) : Prop := ∀ s, R s (a.run s).2

section

variable {R : σ → σ → Prop} (hrefl : ∀ s, R s s) (htrans : ∀ s t u, R s t → R t u → R s u)

include htrans in
theorem Action.Moves.bind {a : Action σ ε α} {f : α → Action σ ε β} (ha : a.Moves R) (hf : ∀ x, (f x).Moves R) :
    (a >>= f).Moves R := by
  intro s
  have hs := ha s
  rw [Action.run_bind]
  generalize a.run s = left at hs
  rcases left with ⟨e | x, t⟩
  · exact hs
  · exact htrans s t _ hs (hf x t)

include htrans in
theorem Action.Moves.tryCatch {a : Action σ ε α} {f : Fault ε → Action σ ε α} (ha : a.Moves R)
    (hf : ∀ e, (f e).Moves R) : (tryCatch a f).Moves R := by
  intro s
  have hs := ha s
  rw [Action.run_tryCatch]
  generalize a.run s = left at hs
  rcases left with ⟨e | x, t⟩
  · exact htrans s t _ hs (hf e t)
  · exact hs

include hrefl htrans in
/-- what every part of a call keeps to, the call keeps to once the arguments have been copied, whichever parts run -/
theorem Wrapper.call_moves {w : Wrapper σ ε V τ} {self : Option Place} {passed : List (Argument V)} {args : List V}
    {s t : σ} (h : passed.length = w.method.info.parameters.length)
    (hcopied : (w.method.snapshot passed).run s = (.ok args, t)) (henter : (w.enter self args).Moves R)
    (hinvoke : (w.method.invoke self passed).Moves R) (hexit : ∀ result, (w.exit self result args).Moves R)
    (hexception : ∀ fault, (w.exception self fault args).Moves R) : R t ((w.call self passed).run s).2 := by
  have hguarded : (w.guarded self passed args).Moves R :=
    henter.bind htrans fun _ => hinvoke.bind htrans fun r => (hexit r).bind htrans fun _ => hrefl
  have hrethrow (f : Fault ε) : (w.rethrow self args f).Moves R := (hexception f).bind htrans fun _ => hrefl
  rw [run_call_of_copied h hcopied]
  exact hguarded.tryCatch htrans hrethrow t

end

/-! ## Journals and states -/

namespace Wrapper

variable {w : Wrapper σ ε V τ} {s t u : σ} {steps rest : List (Step ε V τ)}

theorem Replays.append (h : w.Replays s steps t) (hrest : w.Replays t rest u) : w.Replays s (steps ++ rest) u := by
  induction h with
  | done s => exact hrest
  | step hstep _ ih => exact .step hstep (ih hrest)

theorem Replays.split (h : w.Replays s (steps ++ rest) u) : ∃ t, w.Replays s steps t ∧ w.Replays t rest u := by
  induction steps generalizing s with
  | nil => exact ⟨s, .done s, h⟩
  | cons step steps ih =>
    cases h with
    | step hstep hsteps =>
      obtain ⟨t, hfirst, hrest⟩ := ih hsteps
      exact ⟨t, .step hstep hfirst, hrest⟩

/-- steps were added that lead from the one state to the other, and whose hooks were told the arguments -/
def Noted (w : Wrapper σ ε V τ) (args : List V) (before after : σ × List (Step ε V τ)) : Prop :=
  ∃ steps, after.2 = before.2 ++ steps ∧ w.Replays before.1 steps after.1 ∧
    ∀ step ∈ steps, ∀ told ∈ step.told?, told = args

section

variable {args : List V}

theorem Noted.refl (s : σ × List (Step ε V τ)) : w.Noted args s s :=
  ⟨[], (List.append_nil _).symm, .done s.1, List.forall_mem_nil _⟩

theorem Noted.trans (a b c : σ × List (Step ε V τ)) (hab : w.Noted args a b) (hbc : w.Noted args b c) :
    w.Noted args a c := by
  obtain ⟨steps, hsteps, hfirst, htold⟩ := hab
  obtain ⟨rest, hrest, hlast, htoldRest⟩ := hbc
  exact ⟨steps ++ rest, by rw [hrest, hsteps, List.append_assoc], hfirst.append hlast,
    List.forall_mem_append.2 ⟨htold, htoldRest⟩⟩

/-- a part that notes its step -/
theorem Noted.of_noting {a : Action σ ε α} {step : Except (Fault ε) α → Step ε V τ}
    (hruns : ∀ s, (step (a.run s).1).Runs w s (a.run s).2)
    (htold : ∀ ending, ∀ told ∈ (step ending).told?, told = args) : (a.noting step).Moves (w.Noted args) :=
  fun s => ⟨[step (a.run s.1).1], rfl, .step (hruns s.1) (.done _), List.forall_mem_singleton.2 (htold _)⟩

end

variable (w) (self : Option Place) (passed : List (Argument V)) (args : List V)

theorem enter_noted : (w.recorded.enter self args).Moves (w.Noted args) := by
  unfold enter recorded Hooks.recorded
  cases hset : w.hooks.onEnter with
  | none => exact Noted.refl
  | some hook => exact Noted.of_noting (fun s => ⟨rfl, hook, hset, rfl⟩) fun _ _ h => (Option.some.inj h).symm

theorem exit_noted (result : Returned V) : (w.recorded.exit self result args).Moves (w.Noted args) := by
  unfold exit recorded Hooks.recorded
  cases hset : w.hooks.onExit with
  | none => exact Noted.refl
  | some hook => exact Noted.of_noting (fun s => ⟨rfl, hook, hset, rfl⟩) fun _ _ h => (Option.some.inj h).symm

theorem exception_noted (fault : Fault ε) : (w.recorded.exception self fault args).Moves (w.Noted args) := by
  unfold exception recorded Hooks.recorded
  cases hset : w.hooks.onException with
  | none => exact Noted.refl
  | some hook => exact Noted.of_noting (fun s => ⟨rfl, hook, hset, rfl⟩) fun _ _ h => (Option.some.inj h).symm

theorem invoke_noted : (w.recorded.method.invoke self passed).Moves (w.Noted args) :=
  Noted.of_noting (fun _ => rfl) fun _ _ h => nomatch h

variable {w self passed args}

/-- the steps of a call lead from the state behind the copying to the state at its end, and all its hooks are told the
copies -/
theorem noted_journal (self : Option Place) (h : passed.length = w.method.info.parameters.length)
    (hcopied : (w.method.snapshot passed).run s = (.ok args, t)) :
    w.Replays t (w.journal self passed s) ((w.call self passed).run s).2 ∧
      ∀ step ∈ w.journal self passed s, ∀ told ∈ step.told?, told = args := by
  have hcopied' : (w.recorded.method.snapshot passed).run (s, []) = (.ok args, t, []) := by
    change (((w.method.snapshot passed).run s).1, ((w.method.snapshot passed).run s).2, _) = _
    rw [hcopied]
  have hnoted : w.Noted args (t, []) ((w.recorded.call self passed).run (s, [])).2 :=
    call_moves Noted.refl Noted.trans h hcopied' (w.enter_noted self args) (w.invoke_noted self passed args)
      (w.exit_noted self args) (w.exception_noted self args)
  rw [run_recorded] at hnoted
  obtain ⟨steps, rfl, hreplays, htold⟩ := hnoted
  exact ⟨hreplays, htold⟩

end Wrapper

/-! ## The run of the method -/

section

variable {w : Wrapper σ ε V τ} {self : Option Place} {passed : List (Argument V)} {args : List V} {steps : List (Step ε V τ)}
  {step : Step ε V τ} {result : Except (Fault ε) (Returned V)}

theorem Wrapper.told_exited (r : Returned V) : ∀ step ∈ w.exited self r args, step.told?.isSome := by
  unfold exited
  split_ifs
  · exact List.forall_mem_singleton.2 rfl
  · exact List.forall_mem_nil _

/-- the method runs once, right behind the enter hook, unless the enter hook faults; all other steps are hooks -/
inductive RunsOnce (w : Wrapper σ ε V τ) (self : Option Place) (passed : List (Argument V)) (args : List V) :
    List (Step ε V τ) → Prop where
  | refused (f : Fault ε) (rest : List (Step ε V τ)) (hrest : ∀ step ∈ rest, step.told?.isSome) :
      RunsOnce w self passed args (.enter w.context self args (.error f) :: rest)
  | ran (ending : Except (Fault ε) (Returned V)) (rest : List (Step ε V τ))
      (hrest : ∀ step ∈ rest, step.told?.isSome) :
      RunsOnce w self passed args (w.entered self args ++ .method self passed ending :: rest)

theorem RunsOnce.concat (h : RunsOnce w self passed args steps) (hstep : step.told?.isSome) :
    RunsOnce w self passed args (steps ++ [step]) := by
  have hmore {rest : List (Step ε V τ)} (h : ∀ one ∈ rest, one.told?.isSome) :
      ∀ one ∈ rest ++ [step], one.told?.isSome :=
    List.forall_mem_append.2 ⟨h, List.forall_mem_singleton.2 hstep⟩
  cases h with
  | refused f rest h => exact .refused f _ (hmore h)
  | ran ending rest h =>
    rw [List.append_assoc, List.cons_append]
    exact .ran ending _ (hmore h)

theorem Guarded.runsOnce (h : Guarded w self passed args steps result) : RunsOnce w self passed args steps := by
  cases h with
  | enterFault f => exact .refused f [] (List.forall_mem_nil _)
  | methodFault f => exact .ran _ [] (List.forall_mem_nil _)
  | exitFault r f => exact .ran _ _ (List.forall_mem_singleton.2 rfl)
  | returned r => exact .ran _ _ (Wrapper.told_exited r)

theorem Protocol.runsOnce (h : Protocol w self passed args steps result) : RunsOnce w self passed args steps := by
  cases h with
  | returned _ _ h => exact h.runsOnce
  | unreported _ _ h => exact h.runsOnce
  | reported _ _ h => exact h.runsOnce.concat rfl
  | replaced _ _ _ h => exact h.runsOnce.concat rfl

/-- behind an enter hook that returned, the state is the one that the enter hook left -/
theorem Wrapper.Replays.entered {s t : σ} (h : w.Replays s (w.entered self args) t) :
    t = ((w.enter self args).run s).2 := by
  unfold Wrapper.entered at h
  unfold Wrapper.enter
  cases hset : w.hooks.onEnter with
  | none =>
    rw [hset] at h
    cases h
    rfl
  | some hook =>
    rw [hset] at h
    cases h with
    | step hstep hrest =>
      obtain ⟨-, one, hone, hrun⟩ := hstep
      cases hrest
      cases hset.symm.trans hone
      rw [hrun]

theorem Wrapper.Replays.refused {s t : σ} {f : Fault ε}
    (h : w.Replays s (.enter w.context self args (.error f) :: steps) t) : ((w.enter self args).run s).1 = .error f := by
  cases h with
  | step hstep _ =>
    obtain ⟨-, hook, hset, hrun⟩ := hstep
    unfold Wrapper.enter
    rw [Option.mem_def.1 hset]
    exact congrArg Prod.fst hrun

/-- the method runs once, in the state that the enter hook leaves, unless the enter hook faults -/
theorem Wrapper.runs_once {s t : σ} (self : Option Place) (h : passed.length = w.method.info.parameters.length)
    (hcopied : (w.method.snapshot passed).run s = (.ok args, t)) :
    let left := ((w.enter self args).run t).2
    ((w.enter self args).run t).1 ≠ .ok () ∧ (∀ step ∈ w.journal self passed s, step.told?.isSome) ∨
      ∃ ending rest after,
        w.journal self passed s = w.entered self args ++ .method self passed ending :: rest ∧
          (∀ step ∈ rest, step.told?.isSome) ∧ w.Replays t (w.entered self args) left ∧
          (w.method.invoke self passed).run left = (ending, after) ∧
          w.Replays after rest ((w.call self passed).run s).2 := by
  intro left
  have honce : RunsOnce w self passed args (w.journal self passed s) := (call_recorded h hcopied).2.runsOnce
  have hreplays := (noted_journal self h hcopied).1
  generalize w.journal self passed s = steps at honce hreplays
  cases honce with
  | refused fault rest hrest =>
    refine .inl ⟨?_, List.forall_mem_cons.2 ⟨rfl, hrest⟩⟩
    rw [hreplays.refused]
    exact nofun
  | ran ending rest hrest =>
    obtain ⟨u, hentered, hmethod⟩ := hreplays.split
    obtain rfl : u = left := hentered.entered
    cases hmethod with
    | step hrun hbehind => exact .inr ⟨ending, rest, _, rfl, hrest, hentered, hrun, hbehind⟩

end

/-! ## What a transformer stores -/

section

variable {ts : List TypeInfo} {ps : List Place} {p : Place}

theorem slotsPassed_cons (byRef : Bool) (t : TypeInfo) (ts : List TypeInfo) (p : Place) (ps : List Place) :
    slotsPassed byRef (t :: ts) (p :: ps) =
      if t.byRef == byRef then p :: slotsPassed byRef ts ps else slotsPassed byRef ts ps := by
  unfold slotsPassed
  rw [List.zip_cons_cons, List.filter_cons]
  split_ifs <;> rfl

theorem slotsPassed_subset {byRef : Bool} (h : p ∈ slotsPassed byRef ts ps) : p ∈ ps := by
  obtain ⟨⟨t, q⟩, hmem, rfl⟩ := List.mem_map.1 h
  exact (List.of_mem_zip (List.mem_of_mem_filter hmem)).2

/-- with distinct slots, no by-value slot is a by-reference slot -/
theorem notMem_slotsPassed (hdistinct : ps.Nodup) (h : p ∈ slotsPassed false ts ps) : p ∉ slotsPassed true ts ps := by
  induction ts generalizing ps with
  | nil => exact List.not_mem_nil
  | cons t ts ih =>
    cases ps with
    | nil => exact List.not_mem_nil
    | cons q ps =>
      obtain ⟨hq, hps⟩ := List.nodup_cons.1 hdistinct
      rw [slotsPassed_cons, beq_false] at h
      rw [slotsPassed_cons, beq_true]
      cases href : t.byRef with
      | true =>
        rw [href] at h
        rintro (_ | ⟨_, hmem⟩)
        · exact hq (slotsPassed_subset h)
        · exact ih hps h hmem
      | false =>
        rw [href] at h
        rcases h with _ | ⟨_, hmem⟩
        · exact fun hmem => hq (slotsPassed_subset hmem)
        · exact ih hps hmem

end

namespace World

variable {w : World V ρ} {p q : Place}

@[simp]
theorem write_length (w : World V ρ) (p : Place) (v : V) : (w.write p v).cells.length = w.cells.length :=
  List.length_set

theorem write_of_ne (h : q ≠ p) (v : V) : (w.write q v).cells[p]? = w.cells[p]? := List.getElem?_set_ne h

theorem write_same (h : p < w.cells.length) (v : V) : (w.write p v).cells[p]? = some v := List.getElem?_set_self h

variable [Inhabited V] {ts : List TypeInfo} {ps : List Place}

/-- the parameters start with the values in their slots -/
theorem map_read_bound (h : ps.length = ts.length) (w : World V ρ) :
    (w.bound ts ps).map (Argument.read w) = w.readAll ps := by
  induction ts generalizing ps with
  | nil => rw [List.length_eq_zero_iff.1 h]; rfl
  | cons t ts ih =>
    rcases ps with _ | ⟨p, ps⟩
    · cases h
    refine congrArg₂ List.cons ?_ (ih (Nat.succ.inj h))
    split_ifs <;> rfl

end World

namespace Argument

theorem storeAll_nil (bound : List (Argument V)) (w : World V ρ) : storeAll bound [] w = w := by
  cases bound <;> rfl

theorem storeAll_rest (bound : List (Argument V)) (vs : List V) (w : World V ρ) : (storeAll bound vs w).rest = w.rest := by
  fun_induction storeAll bound vs w with
  | case1 a as v vs w ih => rw [ih]; cases a <;> rfl
  | case2 => rfl

theorem storeAll_length (bound : List (Argument V)) (vs : List V) (w : World V ρ) :
    (storeAll bound vs w).cells.length = w.cells.length := by
  fun_induction storeAll bound vs w with
  | case1 a as v vs w ih =>
    rw [ih]
    cases a with
    | value _ => rfl
    | place p => exact World.write_length ..
  | case2 => rfl

variable [Inhabited V] {origin w : World V ρ} {ts : List TypeInfo} {ps : List Place} {vs : List V} {p : Place}

/-- what becomes of a by-value parameter is not stored -/
theorem storeAll_bound (origin : World V ρ) (t : TypeInfo) (ts : List TypeInfo) (p : Place) (ps : List Place) (v : V)
    (vs : List V) (w : World V ρ) : storeAll (origin.bound (t :: ts) (p :: ps)) (v :: vs) w =
      storeAll (origin.bound ts ps) vs (if t.byRef then w.write p v else w) := by
  rw [World.bound, storeAll]
  split_ifs <;> rfl

/-- only by-reference slots are written -/
theorem storeAll_elsewhere (h : p ∉ slotsPassed true ts ps) :
    (storeAll (origin.bound ts ps) vs w).cells[p]? = w.cells[p]? := by
  induction ts generalizing ps vs w with
  | nil => rfl
  | cons t ts ih =>
    rcases ps with _ | ⟨q, ps⟩
    · rfl
    rcases vs with _ | ⟨v, vs⟩
    · rfl
    rw [slotsPassed_cons, beq_true] at h
    rw [storeAll_bound]
    split_ifs at h ⊢ with href
    · obtain ⟨hne, hrest⟩ := List.ne_and_not_mem_of_not_mem_cons h
      rw [ih hrest, World.write_of_ne hne.symm]
    · exact ih h

/-- with distinct slots, every by-reference slot holds what became of its parameter -/
theorem storeAll_byReference (hdistinct : ps.Nodup) {t : TypeInfo} {v : V} (hmem : (t, p, v) ∈ ts.zip (ps.zip vs))
    (href : t.byRef) (hp : p < w.cells.length) : (storeAll (origin.bound ts ps) vs w).cells[p]? = some v := by
  induction ts generalizing ps vs w with
  | nil => cases hmem
  | cons t' ts ih =>
    rcases ps with _ | ⟨q, ps⟩
    · cases hmem
    rcases vs with _ | ⟨v', vs⟩
    · cases hmem
    obtain ⟨hq, hps⟩ := List.nodup_cons.1 hdistinct
    rw [storeAll_bound]
    rcases List.mem_cons.1 hmem with heq | hmem
    · cases heq
      rw [storeAll_elsewhere fun h => hq (slotsPassed_subset h), if_pos href, World.write_same hp]
    · refine ih hps hmem ?_
      split_ifs
      · rwa [World.write_length]
      · exact hp

end Argument

namespace Transformer

theorem storeSelf_rest (self : Option Place) (v : Option V) (w : World V ρ) : (storeSelf self v w).rest = w.rest := by
  unfold storeSelf
  split <;> rfl

theorem storeSelf_length (self : Option Place) (v : Option V) (w : World V ρ) :
    (storeSelf self v w).cells.length = w.cells.length := by
  unfold storeSelf
  split
  · exact World.write_length ..
  · rfl

theorem storeSelf_of_ne {self : Option Place} {p : Place} (h : self ≠ some p) (v : Option V) (w : World V ρ) :
    (storeSelf self v w).cells[p]? = w.cells[p]? := by
  unfold storeSelf
  split
  · exact World.write_of_ne (fun heq => h (congrArg some heq)) _
  · rfl

variable [Inhabited V] (f : Transformer V ε ρ) (self : Option Place) {slots : List Place} (w : World V ρ)

/-! ### Copying -/

/-- copying the values succeeds, or faults at the first one that cannot be copied -/
def copies (f : Transformer V ε ρ) (vs : List V) : Except (Fault ε) Unit :=
  match vs.findSome? f.copyFault with
  | some cause => .error (.raised cause)
  | none => .ok ()

omit [Inhabited V] in
theorem run_copy_bind (v : V) (vs : List V) (g : V → Action (World V ρ) ε α) (x : α)
    (h : (g v).run w = ((f.copies vs).map fun _ => x, w)) :
    (f.copy v >>= g).run w = ((f.copies (v :: vs)).map fun _ => x, w) := by
  rw [Action.run_bind, copies, List.findSome?_cons, copy]
  cases f.copyFault v with
  | some cause => rfl
  | none => exact h

/-- copying all arguments changes nothing -/
theorem run_snapshot (slots : List Place) : (f.function.snapshot (slots.map .place)).run w =
    ((f.copies (w.readAll slots)).map fun _ => w.readAll slots, w) := by
  induction slots with
  | nil => rfl
  | cons p slots ih =>
    refine f.run_copy_bind w (w.read p) (w.readAll slots) _ _ ?_
    rw [Action.run_bind, ih]
    cases f.copies (w.readAll slots) <;> rfl

/-- a by-value parameter is bound to a copy of what is in its slot -/
theorem run_bindOne_bind {t : TypeInfo} (ht : t.byRef = false) (p : Place)
    (g : Argument V → Action (World V ρ) ε α) : (f.function.bindOne t (.place p) >>= g).run w =
      (f.copy (w.read p) >>= fun v => g (.value v)).run w := by
  have hone : (f.function.bindOne t (.place p)).run w =
      (f.copy (w.read p) >>= fun v => pure (Argument.value v)).run w := by
    rw [Function.bindOne, ht]
    rfl
  rw [Action.run_bind, hone, Action.run_bind, Action.run_bind]
  rcases (f.copy (w.read p)).run w with ⟨_ | _, _⟩ <;> rfl

/-- so does binding the parameters, which copies by-value arguments only -/
theorem run_bindAll (ts : List TypeInfo) (slots : List Place) : (f.function.bindAll ts (slots.map .place)).run w =
    ((f.copies (w.readAll (slotsPassed false ts slots))).map fun _ => w.bound ts slots, w) := by
  induction ts generalizing slots with
  | nil => rfl
  | cons t ts ih =>
    rcases slots with _ | ⟨p, slots⟩
    · rfl
    have hrest (b : Argument V) : (f.function.bindAll ts (slots.map .place) >>= fun bs => pure (b :: bs)).run w =
        ((f.copies (w.readAll (slotsPassed false ts slots))).map fun _ => b :: w.bound ts slots, w) := by
      rw [Action.run_bind, ih]
      cases f.copies (w.readAll (slotsPassed false ts slots)) <;> rfl
    change (f.function.bindOne t (.place p) >>= fun b =>
      f.function.bindAll ts (slots.map .place) >>= fun bs => pure (b :: bs)).run w = _
    rw [slotsPassed_cons, World.bound, beq_false]
    cases ht : t.byRef with
    | true =>
      rw [Function.bindOne, ht]
      exact hrest (.place p)
    | false =>
      rw [f.run_bindOne_bind w ht]
      exact f.run_copy_bind w (w.read p) _ _ _ (hrest (.value (w.read p)))

/-! ### Running -/

variable {w}

/-- what the transformer does to its storage -/
theorem run_callDirect {bound : List (Argument V)} {e : Effect V ε ρ}
    (he : f.body ((f.function.selfPlace self).map w.read) (bound.map (Argument.read w)) w.rest = e) :
    (f.function.callDirect self bound >>= f.function.boxed).run w =
      ((e.ending.outcome (f.function.selfPlace self) bound).map f.function.result,
        storeEffect (f.function.selfPlace self) bound e w) := by
  have hboxed (r : Returned V) : f.function.boxed r = pure r := by
    cases r <;> rfl
  have hdirect : f.function.callDirect self bound >>= f.function.boxed =
      f.run (f.function.selfPlace self) bound >>= fun r => pure (f.function.result r) := by
    unfold Function.callDirect
    simp only [hboxed, bind_assoc, pure_bind]
    rfl
  have hrun : (f.run (f.function.selfPlace self) bound).run w =
      (e.ending.outcome (f.function.selfPlace self) bound, storeEffect (f.function.selfPlace self) bound e w) := by
    subst he
    rfl
  rw [hdirect, Action.run_bind, hrun]
  cases e.ending.outcome (f.function.selfPlace self) bound <;> rfl

variable (w)

/-- a run of a transformer makes its effect and ends as that does -/
theorem run_perform {slots : List Place} (h : slots.length = f.parameters.length) :
    (f.function.perform self (slots.map .place)).run w =
      (f.ending self slots w,
        storeEffect (f.function.selfPlace self) (w.bound f.parameters slots) (f.effect self slots w) w) := by
  change (f.function.bindAll f.parameters (slots.map .place) >>= fun bound =>
    f.function.callDirect self bound >>= f.function.boxed).run w = _
  rw [Action.run_bind, run_bindAll, copies]
  unfold ending effect
  cases (w.readAll (slotsPassed false f.parameters slots)).findSome? f.copyFault with
  | some cause =>
    refine Prod.ext rfl ?_
    change w = storeSelf (f.function.selfPlace self) none (Argument.storeAll _ [] w)
    rw [Argument.storeAll_nil]
    cases f.function.selfPlace self <;> rfl
  | none =>
    change (f.function.callDirect self (w.bound f.parameters slots) >>= f.function.boxed).run w = _
    exact f.run_callDirect self (by rw [World.map_read_bound h])

/-- what a run of a transformer does to storage -/
theorem perform_leaves {slots : List Place} (hdistinct : slots.Nodup) (h : slots.length = f.parameters.length) :
    f.Leaves (f.function.selfPlace self) slots (f.effect self slots w) w
      ((f.function.perform self (slots.map .place)).run w).2 := by
  rw [f.run_perform self w h]
  exact {
    rest := (storeSelf_rest ..).trans (Argument.storeAll_rest ..)
    size := (storeSelf_length ..).trans (Argument.storeAll_length ..)
    byReference := fun t p v hmem href hne hp =>
      (storeSelf_of_ne hne ..).trans (Argument.storeAll_byReference hdistinct hmem href hp)
    byValue := fun p hp hne =>
      (storeSelf_of_ne hne ..).trans (Argument.storeAll_elsewhere (notMem_slotsPassed hdistinct hp))
    elsewhere := fun p hp hne => (storeSelf_of_ne hne ..).trans (Argument.storeAll_elsewhere hp)
    atInstance := by
      intro p v hself hv hp
      change (storeSelf _ (f.effect self slots w).self _).cells[p]? = _
      rw [hself, hv]
      exact World.write_same (by rwa [Argument.storeAll_length]) v }

end Transformer

/-! ## Calls -/

section

variable {a a' : Action σ ε α} {s : σ}

theorem Action.run_bind_congr {f g : α → Action σ ε β} (h : ∀ x, (f x).run (a.run s).2 = (g x).run (a.run s).2) :
    (a >>= f).run s = (a >>= g).run s := by
  rw [run_bind, run_bind]
  generalize a.run s = left at h
  rcases left with ⟨e | x, t⟩
  · rfl
  · exact h x

theorem Action.run_bind_of_run_eq {f : α → Action σ ε β} (h : a.run s = a'.run s) :
    (a >>= f).run s = (a' >>= f).run s := by
  rw [run_bind, run_bind, h]

theorem Action.run_noting_of_run_eq {step : Except (Fault ε) α → Step ε V τ} (h : a.run s = a'.run s)
    (journal : List (Step ε V τ)) : (a.noting step).run (s, journal) = (a'.noting step).run (s, journal) := by
  change ((a.run s).1, (a.run s).2, journal ++ [step (a.run s).1]) =
    ((a'.run s).1, (a'.run s).2, journal ++ [step (a'.run s).1])
  rw [h]

theorem Action.run_tryCatch_of_run_eq {f : Fault ε → Action σ ε α} (h : a.run s = a'.run s) :
    (tryCatch a f).run s = (tryCatch a' f).run s := by
  rw [run_tryCatch, run_tryCatch, h]

end

/-- functions that copy alike take the same snapshots -/
theorem Function.snapshot_congr [Inhabited V] {f g : Function V ε ρ} (h : g.copy = f.copy) (passed : List (Argument V)) :
    g.snapshot passed = f.snapshot passed := by
  induction passed with
  | nil => rfl
  | cons a passed ih => rw [snapshot, snapshot, h, ih]

namespace Wrapper

/-- the wrapper with another method of the same shape -/
def withInvoke (w : Wrapper σ ε V τ) (invoke : Option Place → List (Argument V) → Action σ ε (Returned V)) :
    Wrapper σ ε V τ :=
  { w with method := { w.method with invoke } }

variable {w : Wrapper σ ε V τ} {invoke : Option Place → List (Argument V) → Action σ ε (Returned V)}
  {self : Option Place} {passed : List (Argument V)} {args : List V} {s t : σ}

theorem call_congr_of_copied (h : passed.length = w.method.info.parameters.length)
    (hcopied : (w.method.snapshot passed).run s = (.ok args, t))
    (hinvoke : (invoke self passed).run ((w.enter self args).run t).2 =
      (w.method.invoke self passed).run ((w.enter self args).run t).2) :
    ((w.withInvoke invoke).call self passed).run s = (w.call self passed).run s := by
  have hguarded : ((w.withInvoke invoke).guarded self passed args).run t = (w.guarded self passed args).run t :=
    Action.run_bind_congr fun _ => Action.run_bind_of_run_eq hinvoke
  calc ((w.withInvoke invoke).call self passed).run s
      = (tryCatch ((w.withInvoke invoke).guarded self passed args) (w.rethrow self args)).run t :=
        run_call_of_copied (w := w.withInvoke invoke) h hcopied
    _ = (tryCatch (w.guarded self passed args) (w.rethrow self args)).run t := Action.run_tryCatch_of_run_eq hguarded
    _ = (w.call self passed).run s := (run_call_of_copied h hcopied).symm

/-- a call asks the method about a single state, the one that the enter hook has left -/
theorem call_congr (hinvoke : passed.length = w.method.info.parameters.length →
      ∀ args t, (w.method.snapshot passed).run s = (.ok args, t) → (invoke self passed).run ((w.enter self args).run t).2 =
        (w.method.invoke self passed).run ((w.enter self args).run t).2) :
    ((w.withInvoke invoke).call self passed).run s = (w.call self passed).run s := by
  by_cases h : passed.length = w.method.info.parameters.length
  · rcases hcopied : (w.method.snapshot passed).run s with ⟨f | args, t⟩
    · exact (run_call_of_uncopied (w := w.withInvoke invoke) h hcopied).trans (run_call_of_uncopied h hcopied).symm
    · exact call_congr_of_copied h hcopied (hinvoke h args t hcopied)
  · exact ((w.withInvoke invoke).run_call_of_length_ne self passed h s).trans
      (w.run_call_of_length_ne self passed h s).symm

/-- so does its journal -/
theorem journal_congr (hinvoke : passed.length = w.method.info.parameters.length →
      ∀ args t, (w.method.snapshot passed).run s = (.ok args, t) → (invoke self passed).run ((w.enter self args).run t).2 =
        (w.method.invoke self passed).run ((w.enter self args).run t).2) :
    (w.withInvoke invoke).journal self passed s = w.journal self passed s := by
  let noting (self : Option Place) (passed : List (Argument V)) :=
    (invoke self passed).noting (Step.method (τ := τ) self passed)
  have hcall : ((w.recorded.withInvoke noting).call self passed).run (s, []) =
      (w.recorded.call self passed).run (s, []) := by
    refine call_congr fun h args after hcopied => ?_
    change (((w.method.snapshot passed).run s).1, ((w.method.snapshot passed).run s).2, []) = _ at hcopied
    obtain ⟨hargs, hafter⟩ := Prod.mk.inj hcopied
    obtain ⟨steps, hrun, -⟩ := w.enter_recordedBy self args after.1 after.2
    rw [hrun]
    refine Action.run_noting_of_run_eq (hinvoke h args after.1 ?_) _
    exact Prod.ext hargs (congrArg Prod.fst hafter)
  exact congrArg (fun run => run.2.2) hcall

/-- transformers of one shape make wrappers that differ in their methods only -/
theorem withInvoke_perform [Inhabited V] {f g : Transformer V ε ρ} (hparameters : g.parameters = f.parameters)
    (howner : g.owner = f.owner) (hreturns : g.returns = f.returns) (hcopy : g.copyFault = f.copyFault) (name : Text)
    (hooks : Hooks (World V ρ) ε V τ) (tag : τ) : (⟨g.function.method name, hooks, tag⟩ : Wrapper (World V ρ) ε V τ) =
      withInvoke ⟨f.function.method name, hooks, tag⟩ g.function.perform := by
  have hinfo : g.function.info name = f.function.info name := by
    unfold Function.info Transformer.function
    rw [hparameters, howner, hreturns]
  have hsnapshot : g.function.snapshot = f.function.snapshot := by
    refine funext (Function.snapshot_congr ?_)
    change g.copy = f.copy
    unfold Transformer.copy
    rw [hcopy]
  unfold Function.method withInvoke
  rw [hinfo, hsnapshot]

end Wrapper

/-- transformers of one shape that make the same of the storage do the same to it -/
theorem Transformer.perform_congr [Inhabited V] {f g : Transformer V ε ρ} {self : Option Place} {slots : List Place}
    {w : World V ρ} (hparameters : g.parameters = f.parameters) (howner : g.owner = f.owner)
    (hreturns : g.returns = f.returns) (heffect : g.effect self slots w = f.effect self slots w)
    (h : slots.length = f.parameters.length) :
    (g.function.perform self (slots.map .place)).run w = (f.function.perform self (slots.map .place)).run w := by
  have hself : g.function.selfPlace self = f.function.selfPlace self := by
    change (if g.owner.isSome then self else none) = if f.owner.isSome then self else none
    rw [howner]
  have hresult : g.function.result = f.function.result := by
    unfold Function.result function
    rw [hreturns]
  rw [g.run_perform self w (by rw [hparameters]; exact h), f.run_perform self w h, ending, ending, heffect, hself,
    hresult, hparameters]

namespace Wrapper

/-- a transformer that agrees with another one on what the enter hook leaves does the same in a call -/
theorem call_of_same_effect [Inhabited V] {f g : Transformer V ε ρ} {name : Text} {hooks : Hooks (World V ρ) ε V τ}
    {tag : τ} {self : Option Place} {slots : List Place} {s : World V ρ} (hparameters : g.parameters = f.parameters)
    (howner : g.owner = f.owner) (hreturns : g.returns = f.returns) (hcopy : g.copyFault = f.copyFault)
    (heffect :
      let left := ((enter ⟨f.function.method name, hooks, tag⟩ self (s.readAll slots)).run s).2
      g.effect self slots left = f.effect self slots left) :
    (call ⟨g.function.method name, hooks, tag⟩ self (slots.map Argument.place)).run s =
        (call ⟨f.function.method name, hooks, tag⟩ self (slots.map Argument.place)).run s ∧
      Wrapper.journal ⟨g.function.method name, hooks, tag⟩ self (slots.map Argument.place) s =
        Wrapper.journal ⟨f.function.method name, hooks, tag⟩ self (slots.map Argument.place) s := by
  let w : Wrapper (World V ρ) ε V τ := ⟨f.function.method name, hooks, tag⟩
  have hinvoke (hcount : (slots.map (Argument.place (V := V))).length = f.parameters.length) (copies : List V)
      (t : World V ρ) (h : (w.method.snapshot (slots.map Argument.place)).run s = (.ok copies, t)) :
      (g.function.perform self (slots.map Argument.place)).run ((w.enter self copies).run t).2 =
        (f.function.perform self (slots.map Argument.place)).run ((w.enter self copies).run t).2 := by
    have hcopied : (w.method.snapshot (slots.map Argument.place)).run s =
        ((f.copies (s.readAll slots)).map fun _ => s.readAll slots, s) := f.run_snapshot s slots
    rw [hcopied] at h
    cases hfine : f.copies (s.readAll slots) with
    | error fault => rw [hfine] at h; cases h
    | ok _ =>
      rw [hfine] at h
      cases h
      rw [List.length_map] at hcount
      exact Transformer.perform_congr hparameters howner hreturns heffect hcount
  rw [withInvoke_perform hparameters howner hreturns hcopy]
  exact ⟨call_congr hinvoke, journal_congr hinvoke⟩

/-- **What hooks, method and caller see of the arguments.** The steps of a call lead from the storage at its start to
the storage at its end, whichever of them fault, and every hook is told the values at its start. Nothing runs if the call
has a wrong number of slots or an argument cannot be copied. Otherwise, and if the enter hook returns, the method runs
once: on the values that the enter hook has left, and storing nothing but its by-reference parameters and its instance.
A transformer that only agrees on these values cannot be told apart. -/
theorem call_storage [Inhabited V] (f : Transformer V ε ρ) (name : Text) (hooks : Hooks (World V ρ) ε V τ) (tag : τ)
    (self : Option Place) (slots : List Place) (hdistinct : slots.Nodup) (s : World V ρ) :
    let w : Wrapper (World V ρ) ε V τ := ⟨f.function.method name, hooks, tag⟩
    let passed := slots.map Argument.place
    let args := s.readAll slots
    let journal := w.journal self passed s
    let final := ((w.call self passed).run s).2
    let left := ((w.enter self args).run s).2
    let e := f.effect self slots left
    w.Replays s journal final ∧
      (∀ step ∈ journal, ∀ told ∈ step.told?, told = args) ∧
      ((slots.length ≠ f.parameters.length ∨ ∃ v ∈ args, f.copyFault v ≠ none) ∧ journal = [] ∧ final = s ∨
        ((w.enter self args).run s).1 ≠ .ok () ∧ (∀ step ∈ journal, step.told?.isSome) ∨
        ∃ rest after,
          journal = w.entered self args ++ .method self passed (f.ending self slots left) :: rest ∧
            (∀ step ∈ rest, step.told?.isSome) ∧
            w.Replays s (w.entered self args) left ∧ f.Leaves (f.function.selfPlace self) slots e left after ∧
            w.Replays after rest final) ∧
      ∀ g : Transformer V ε ρ, g.parameters = f.parameters → g.owner = f.owner → g.returns = f.returns →
        g.copyFault = f.copyFault → g.effect self slots left = e →
        (call ⟨g.function.method name, hooks, tag⟩ self passed).run s = (w.call self passed).run s ∧
          Wrapper.journal ⟨g.function.method name, hooks, tag⟩ self passed s = journal := by
  intro w passed args journal final left e
  have hlength : passed.length = slots.length := List.length_map _
  have hcopied : (w.method.snapshot passed).run s = ((f.copies args).map fun _ => args, s) := f.run_snapshot s slots
  have hsame : ∀ g : Transformer V ε ρ, g.parameters = f.parameters → g.owner = f.owner → g.returns = f.returns →
      g.copyFault = f.copyFault → g.effect self slots left = e →
      (call ⟨g.function.method name, hooks, tag⟩ self passed).run s = (w.call self passed).run s ∧
        Wrapper.journal ⟨g.function.method name, hooks, tag⟩ self passed s = journal :=
    fun _ => call_of_same_effect
  by_cases h : slots.length = f.parameters.length
  swap
  · -- the call is refused for its number of slots
    have hne : passed.length ≠ w.method.info.parameters.length := by rwa [hlength]
    have hfinal : final = s := congrArg Prod.snd (w.run_call_of_length_ne self passed hne s)
    have hjournal : journal = [] := (recorded_of_length_ne self hne s).2
    rw [hjournal, hfinal]
    exact ⟨.done s, List.forall_mem_nil _, .inl ⟨.inl h, rfl, rfl⟩, hjournal ▸ hsame⟩
  have hcount : passed.length = w.method.info.parameters.length := hlength.trans h
  rw [Transformer.copies] at hcopied
  cases hfault : args.findSome? f.copyFault with
  | some cause =>
    -- an argument cannot be copied
    rw [hfault] at hcopied
    have hfinal : final = s := congrArg Prod.snd (run_call_of_uncopied hcount hcopied)
    have hjournal : journal = [] := (recorded_of_uncopied self hcount hcopied).2
    obtain ⟨v, hv, hcause⟩ := List.exists_of_findSome?_eq_some hfault
    rw [hjournal, hfinal]
    exact ⟨.done s, List.forall_mem_nil _, .inl ⟨.inr ⟨v, hv, by simp [hcause]⟩, rfl, rfl⟩, hjournal ▸ hsame⟩
  | none =>
    rw [hfault] at hcopied
    obtain ⟨hreplays, htold⟩ := noted_journal (w := w) self hcount hcopied
    refine ⟨hreplays, htold, .inr ?_, hsame⟩
    rcases runs_once (w := w) self hcount hcopied with
      hnone | ⟨ending, rest, after, hsteps, hrest, hentered, hrun, hbehind⟩
    · exact .inl hnone
    · have hperform := f.run_perform self left h
      have hleaves := f.perform_leaves self left hdistinct h
      obtain ⟨rfl, rfl⟩ := Prod.mk.inj (hperform.symm.trans hrun)
      rw [hperform] at hleaves
      exact .inr ⟨rest, _, hsteps, hrest, hentered, hleaves, hbehind⟩

end Wrapper

namespace Small

/-- hooks that write to the places 1 and 2 -/
def writers : Hooks (World Int Unit) Int Int Unit where
  onEnter := some fun _ _ _ => modify fun w => (w.write 1 20).write 2 30
  onExit := none
  onException := some fun _ _ _ _ => modify fun w => w.write 2 99

/-- an integer by value or by reference -/
def integer (byRef : Bool) : TypeInfo := ⟨4, byRef, false, true⟩

/-- adds its second parameter to its first one, which is by-reference, and faults with the sum -/
def bump : Transformer Int Int Unit :=
  ⟨[integer true, integer false], none, integer false, fun _ => none,
    fun _ args rest => ⟨none, args.sum :: args.tail, rest, .fault args.sum⟩⟩

/-- a wrapper around it -/
def bumped : Wrapper (World Int Unit) Int Int Unit := ⟨bump.function.method (Text.ascii "bump"), writers, ()⟩

end Small

/-- the hooks are told 5 and 7 although 20 and 30 are added up, and all three writes are there in the end -/
theorem Wrapper.call_storage_small :
    let w := Small.bumped
    let s : World Int Unit := ⟨[3, 5, 7], ()⟩
    let passed := [.place 1, .place 2]
    let journal := [.enter w.context none [5, 7] (.ok ()), .method none passed (.error (.raised 50)),
      .exception w.context none (.raised 50) [5, 7] (.ok ())]
    [1, 2].Nodup ∧ w.journal none passed s = journal ∧ w.Replays s journal ⟨[3, 50, 99], ()⟩ ∧
      ∀ step ∈ journal, ∀ told ∈ step.told?, told = [5, 7] := by
  intro w s passed journal
  have hdistinct : [1, 2].Nodup := by decide
  obtain ⟨hreplays, htold, -⟩ := Wrapper.call_storage Small.bump (Text.ascii "bump") Small.writers () none [1, 2]
    hdistinct s
  exact ⟨hdistinct, rfl, hreplays, htold⟩

end CilPatch.Interception
