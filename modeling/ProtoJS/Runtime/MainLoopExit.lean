import ProtoJS.Runtime.MainLoop
import ProtoJS.Runtime.ThreadPoolSteps

/-! # What the program leaves behind

What has been executed when `main` is past its final call of `processCallbacks` is exactly what
had been enqueued when that call swapped the queue out. So the program exits with deferred work
outstanding just when some worker has not enqueued all callbacks of its task by then.
-/

namespace ProtoJS.MainLoop

open Deferred

variable {ω ν φ : Type*} {numThreads numCalls : ℕ}

namespace State

variable (script : Script ω ν φ numCalls) (s : State numThreads numCalls)

/-- The tasks whose `submit` has pushed them. -/
def submitted : List (Fin numCalls) := s.pool.log.pushed

/-- The worker has enqueued all callbacks of the task. -/
def Posted (c : Fin numCalls) : Prop := (script.callbacks c).length ≤ s.posted c

/-- All callbacks of the task have been executed. -/
def Settled (c : Fin numCalls) : Prop :=
  ∀ index < (script.callbacks c).length, .deferred c index ∈ s.loop.executed

/-- The main thread is past its last call of `processCallbacks`, without a timeout and with a
submitted task whose callbacks have not all been executed. -/
def Outstanding : Prop :=
  s.main = .passed ∧ s.timedOut = false ∧ ∃ c ∈ s.submitted, ¬s.Settled script c

end State

/-- The final call of `processCallbacks` comes too early, if no timeout has led to it: a worker
has not enqueued all callbacks of a submitted task. -/
def Leaves (script : Script ω ν φ numCalls) (s : State numThreads numCalls) :
    Action numThreads numCalls → Prop
  | .swap => s.main = .entering true ∧ s.timedOut = false ∧ ∃ c ∈ s.submitted, ¬s.Posted script c
  | _ => False

variable {script : Script ω ν φ numCalls} {s t : State numThreads numCalls}
  {a : Action numThreads numCalls} {as : List (Action numThreads numCalls)} {c : Fin numCalls}

section Projections

/-- The steps of the event loop a step of the program makes. -/
def toLoopActions (s : State numThreads numCalls) :
    Action numThreads numCalls → List (EventLoop.Action (Posting numCalls))
  | .post _ c => [.enqueueCallback (.deferred c (s.posted c))]
  | .enqueueOther n => [.enqueueCallback (.other n)]
  | .swap => [.processCallbacks]
  | .call => [.call]
  | .finishCallback threw => [.finish threw]
  | .leave => [.leave]
  | _ => []

/-- The postings of a task are numbered from zero. -/
theorem mem_pushed_iff (reachable : (program numThreads script).Reachable s) (index : ℕ) :
    .deferred c index ∈ s.loop.pushed ↔ index < s.posted c := by
  refine reachable.invariant
    (P := fun s => .deferred c index ∈ s.loop.pushed ↔ index < s.posted c)
    (by simp [program]) ?_
  intro s a _ enabled holds
  cases a with
  | post i d =>
    simp only [program, next, EventLoop.next, List.mem_append, List.mem_singleton, holds,
      Posting.deferred.injEq]
    by_cases same : c = d
    · subst same
      rw [Function.update_self]
      simp only [true_and]
      omega
    · rw [Function.update_of_ne same]
      simp [same]
  | enqueueOther n =>
    simpa [program, next, EventLoop.next] using holds
  | swap => exact holds
  | leave => exact holds
  | call =>
    have same : (EventLoop.next s.loop .call).pushed = s.loop.pushed :=
      EventLoop.pushed_next (by simp)
    simpa only [program, next, same] using holds
  | finishCallback threw =>
    have same : (EventLoop.next s.loop (.finish threw)).pushed = s.loop.pushed :=
      EventLoop.pushed_next (by simp)
    simpa only [program, next, same] using holds
  | checkTimeout expired =>
    simp only [program, next]
    split <;> exact holds
  | _ => exact holds

private theorem loop_next (reachable : (program numThreads script).Reachable s)
    (enabled : Enabled script s a) :
    (EventLoop.loop (Posting numCalls)).Run s.loop (toLoopActions s a) (next s a).loop := by
  cases a with
  | post i d =>
    refine .single (a := EventLoop.Action.enqueueCallback _) ?_
    intro member
    exact absurd ((mem_pushed_iff reachable _).mp member) (lt_irrefl _)
  | enqueueOther n => exact .single (a := EventLoop.Action.enqueueCallback _) enabled
  | swap => exact .single (a := EventLoop.Action.processCallbacks) enabled.2
  | call => exact .single (a := EventLoop.Action.call) enabled
  | finishCallback threw => exact .single (a := EventLoop.Action.finish threw) enabled
  | leave => exact .single (a := EventLoop.Action.leave) enabled.2
  | checkTimeout expired =>
    simp only [next]
    split <;> exact .nil _
  | _ => exact .nil _

/-- The program drives one event loop. -/
def loopRefinement (numThreads : ℕ) (script : Script ω ν φ numCalls) :
    (program numThreads script).Refinement (EventLoop.loop (Posting numCalls)) where
  abs := State.loop
  emits := toLoopActions
  initial := rfl
  step _ _ reachable enabled := loop_next reachable enabled

end Projections

section Final

/-- The main thread is inside of its final call of `processCallbacks`, or past it. -/
def MainPc.Final : MainPc numCalls → Prop
  | .processing true | .passed => True
  | _ => False

theorem MainPc.final_iff {pc : MainPc numCalls} : pc.Final ↔ pc = .processing true ∨ pc = .passed := by
  rcases pc with _ | _ | _ | _ | (_ | _) | _ | _ <;> simp [MainPc.Final]

/-- The final call of `processCallbacks` is entered by its swap alone. -/
theorem final_before (enabled : Enabled script s a) (final : (next s a).main.Final) :
    s.main.Final ∨ a = .swap ∧ s.main = .entering true := by
  cases a with
  | beginSubmit d => exact final.elim
  | submit d step =>
    simp only [next, afterSubmit] at final
    split at final <;> exact final.elim
  | finishScript => exact final.elim
  | check => exact final.elim
  | swap =>
    rcases enabled.1 with there | there
    · simp [next, there, MainPc.Final] at final
    · exact .inr ⟨rfl, there⟩
  | leave =>
    rcases enabled.1 with there | there
    · simp [next, there, MainPc.Final] at final
    · exact .inl (by simp [there, MainPc.Final])
  | checkTimeout expired =>
    simp only [next] at final
    split at final <;> exact final.elim
  | _ => exact .inl final

/-- From the final swap on, the batch, the submitted tasks and the timeout are settled. -/
theorem final_next (enabled : Enabled script s a) (final : s.main.Final) :
    (next s a).main.Final ∧ (next s a).loop.swappedOut = s.loop.swappedOut ∧
      (next s a).submitted = s.submitted ∧ (next s a).timedOut = s.timedOut := by
  have there := MainPc.final_iff.mp final
  cases a with
  | beginSubmit d => simp [enabled.1] at there
  | submit d step => simp [enabled.1] at there
  | finishScript => simp [show s.main = _ from enabled] at there
  | check => simp [show s.main = _ from enabled] at there
  | swap => rcases enabled.1 with before | before <;> simp [before] at there
  | checkTimeout expired => simp [show s.main = _ from enabled] at there
  | worker i step =>
    exact ⟨final, rfl, ThreadPoolExecutor.workerNext_pushed, rfl⟩
  | post i d => exact ⟨final, rfl, rfl, rfl⟩
  | enqueueOther n => exact ⟨final, rfl, rfl, rfl⟩
  | call => exact ⟨final, EventLoop.swappedOut_next enabled nofun, rfl, rfl⟩
  | finishCallback threw => exact ⟨final, EventLoop.swappedOut_next enabled nofun, rfl, rfl⟩
  | leave =>
    refine ⟨?_, EventLoop.swappedOut_next enabled.2 nofun, rfl, rfl⟩
    rcases enabled.1 with before | before
    · simp [before] at there
    · simp [next, before, MainPc.Final]

/-- The event loop is inside of `processCallbacks` exactly when `main` is. -/
theorem outside_iff (reachable : (program numThreads script).Reachable s) :
    s.loop.main = .outside ↔ ∀ final, s.main ≠ .processing final := by
  refine reachable.invariant
    (P := fun s => s.loop.main = .outside ↔ ∀ final, s.main ≠ .processing final)
    (by simp [program]) ?_
  intro s a _ enabled holds
  cases a with
  | beginSubmit d => simpa [program, next, enabled.1] using holds
  | submit d step =>
    have before : s.loop.main = .outside := holds.mpr (by simp [enabled.1])
    simp only [program, next, afterSubmit, before]
    split <;> simp
  | finishScript => simpa [program, next, show s.main = _ from enabled] using holds
  | check => simpa [program, next, show s.main = _ from enabled] using holds
  | swap => simp [program, next, EventLoop.next]
  | checkTimeout expired =>
    have before : s.loop.main = .outside := holds.mpr (by simp [show s.main = _ from enabled])
    simp only [program, next]
    split <;> simp [before]
  | worker i step => exact holds
  | post i d => exact holds
  | enqueueOther n => exact holds
  | call =>
    obtain ⟨callback, rest, there⟩ := enabled
    rw [there] at holds
    simpa [program, next, EventLoop.next, there] using holds
  | finishCallback threw =>
    obtain ⟨callback, rest, there⟩ := enabled
    rw [there] at holds
    simpa [program, next, EventLoop.next, there] using holds
  | leave =>
    simp only [program, next, EventLoop.next, true_iff]
    intro final
    split <;> simp

/-- Past the final call of `processCallbacks`, what it swapped out has been executed. -/
theorem executed_of_passed (reachable : (program numThreads script).Reachable s)
    (passed : s.main = .passed) : s.loop.executed = s.loop.swappedOut := by
  have outside : s.loop.main = .outside := (outside_iff reachable).mpr (by simp [passed])
  simp [EventLoop.State.swappedOut, outside, EventLoop.MainPc.current, EventLoop.MainPc.batch]

/-- The swap hands over everything that has been enqueued until then. -/
theorem swappedOut_swap (reachable : (program numThreads script).Reachable s)
    (entering : s.main = .entering true) : (next s .swap).loop.swappedOut = s.loop.pushed :=
  EventLoop.swappedOut_processCallbacks ((loopRefinement numThreads script).reachable reachable)
    ((outside_iff reachable).mpr (by simp [entering]))

/-- What has been executed at the end is what had been enqueued at the final swap. -/
theorem executed_at_exit (reachable : (program numThreads script).Reachable s)
    (entering : s.main = .entering true) (run : (program numThreads script).Run (next s .swap) as t)
    (passed : t.main = .passed) :
    t.loop.executed = s.loop.pushed ∧ t.submitted = s.submitted ∧ t.timedOut = s.timedOut := by
  have outside : s.loop.main = .outside := (outside_iff reachable).mpr (by simp [entering])
  have enabled : (program numThreads script).Enabled s .swap := ⟨.inr entering, outside⟩
  have kept : t.main.Final ∧ t.loop.swappedOut = s.loop.pushed ∧ t.submitted = s.submitted ∧
      t.timedOut = s.timedOut := by
    refine run.preserves (P := fun t => t.main.Final ∧ t.loop.swappedOut = s.loop.pushed ∧
      t.submitted = s.submitted ∧ t.timedOut = s.timedOut) ?_ ?_
    · exact ⟨by simp [next, entering, MainPc.Final], swappedOut_swap reachable entering, rfl, rfl⟩
    · rintro u b enabled ⟨final, out, submitted, timedOut⟩
      obtain ⟨final', out', submitted', timedOut'⟩ := final_next enabled final
      exact ⟨final', out'.trans out, submitted'.trans submitted, timedOut'.trans timedOut⟩
  refine ⟨?_, kept.2.2⟩
  rw [executed_of_passed ((reachable.next enabled).run run) passed, kept.2.1]

/-- The final call of `processCallbacks` returns, whatever the workers do. -/
theorem exists_exit (entering : s.main = .entering true) :
    ∃ as t, (program numThreads script).Run (next s .swap) as t ∧ t.main = .passed := by
  have drain : ∀ batch (u : State numThreads numCalls), u.main = .processing true →
      u.loop.main = .draining batch →
      ∃ as t, (program numThreads script).Run u as t ∧ t.main = .passed := by
    intro batch
    induction batch with
    | nil =>
      intro u processing draining
      exact ⟨[.leave], _, .single (a := Action.leave) ⟨.inr processing, draining⟩,
        by simp [program, next, processing]⟩
    | cons callback rest ih =>
      intro u processing draining
      have calling : (next u .call).loop.main = .calling callback rest := by
        simp [next, EventLoop.next, draining]
      obtain ⟨as, t, run, passed⟩ := ih (next (next u .call) (.finishCallback false)) processing
        (by simp only [next, EventLoop.next, draining])
      exact ⟨_, t, .cons (a := Action.call) ⟨callback, rest, draining⟩
        (.cons (a := Action.finishCallback false) ⟨callback, rest, calling⟩ run), passed⟩
  exact drain s.loop.callbackQueue _ (by simp [next, entering]) rfl

end Final

/-- A task is settled at the end exactly when its worker was done with it at the final swap. -/
theorem settled_iff (reachable : (program numThreads script).Reachable s)
    (pushed : t.loop.executed = s.loop.pushed) : t.Settled script c ↔ s.Posted script c := by
  have posted (index : ℕ) : .deferred c index ∈ t.loop.executed ↔ index < s.posted c := by
    rw [pushed]
    exact mem_pushed_iff reachable index
  simp only [State.Settled, State.Posted, posted]
  constructor
  · intro all
    by_contra short
    exact absurd (all (s.posted c) (by omega)) (lt_irrefl _)
  · intro enough index bound
    omega

/-- A run whose final call of `processCallbacks` is never too early leaves nothing behind. -/
theorem not_outstanding (reachable :
    ((program numThreads script).restrict fun s a => ¬Leaves script s a).Reachable t) :
    ¬t.Outstanding script := by
  have kept : t.main.Final → t.timedOut = false →
      ∀ c ∈ t.submitted, ∀ index < (script.callbacks c).length,
        .deferred c index ∈ t.loop.swappedOut := by
    refine reachable.invariant (P := fun t => t.main.Final → t.timedOut = false →
      ∀ c ∈ t.submitted, ∀ index < (script.callbacks c).length,
        .deferred c index ∈ t.loop.swappedOut) (fun final => final.elim) ?_
    intro s a before enabled holds final timely
    have reached := before.of_restrict
    rcases final_before enabled.1 final with already | ⟨rfl, entering⟩
    · obtain ⟨_, out, submitted, timedOut⟩ := final_next enabled.1 already
      rw [Machine.restrict_next]
      change (next s a).timedOut = false at timely
      change ∀ c ∈ (next s a).submitted, ∀ index < (script.callbacks c).length,
        .deferred c index ∈ (next s a).loop.swappedOut
      rw [out, submitted]
      exact holds already (timedOut.symm.trans timely)
    · intro c member index bound
      have posted : s.Posted script c := by
        by_contra missing
        exact enabled.2 ⟨entering, timely, c, member, missing⟩
      change .deferred c index ∈ (next s .swap).loop.swappedOut
      rw [swappedOut_swap reached entering, mem_pushed_iff reached]
      exact bound.trans_le posted
  rintro ⟨passed, timely, c, member, unsettled⟩
  refine unsettled fun index bound => ?_
  rw [executed_of_passed reachable.of_restrict passed]
  exact kept (by simp [passed, MainPc.Final]) timely c member index bound

/-- The program exits with deferred work outstanding exactly when its final call of
`processCallbacks` comes before a worker has enqueued all callbacks of a submitted task. -/
theorem outstanding_iff_leaves (numThreads : ℕ) (script : Script ω ν φ numCalls) :
    (∀ t, ((program numThreads script).restrict fun s a => ¬Leaves script s a).Reachable t →
      ¬t.Outstanding script) ∧
    ∀ s a, (program numThreads script).Reachable s → (program numThreads script).Enabled s a →
      Leaves script s a →
      (∃ as t, (program numThreads script).Run (next s a) as t ∧ t.main = .passed) ∧
      ∀ as t, (program numThreads script).Run (next s a) as t → t.main = .passed →
        t.Outstanding script := by
  refine ⟨fun t reachable => not_outstanding reachable, ?_⟩
  intro s a reachable enabled leaves
  cases a with
  | swap =>
    obtain ⟨entering, timely, c, member, missing⟩ := leaves
    refine ⟨exists_exit entering, fun as t run passed => ?_⟩
    obtain ⟨pushed, submitted, timedOut⟩ := executed_at_exit reachable entering run passed
    exact ⟨passed, timedOut.trans timely, c, submitted ▸ member,
      fun settled => missing ((settled_iff reachable pushed).mp settled)⟩
  | _ => exact leaves.elim

/-- One task whose function returns. -/
def oneDeferred : Script Unit Unit Unit 1 where
  task _ := { serializedFunc := [1] }
  answers _ :=
    { hasContext := true
      newRuntime := true
      newContext := true
      readFunction := fun _ => .ok ()
      callFunction := .ok ()
      writeObject := fun _ => some [1]
      malloc := fun _ => true
      readObject := fun _ => some ()
      cppException := fun _ => none }

/-- The worker is running the task when `main` finds the queue empty and leaves. -/
def earlyExit (i : Fin numThreads) (c : Fin numCalls) : List (Action numThreads numCalls) :=
  [.beginSubmit c, .submit c .push, .submit c (.notifyOne none), .worker i .evaluate,
    .worker i (.take c), .worker i (.activate c), .finishScript, .check, .swap, .leave]

/-- The program is over and the task's outcome is lost. -/
theorem earlyExit_outstanding :
    ∃ t, (program 1 oneDeferred).Reachable t ∧ t.Outstanding oneDeferred := by
  obtain ⟨t, run, passed, timely, submitted, executed⟩ :=
    (program 1 oneDeferred).exists_run_of_replay {} (earlyExit 0 0)
      (fun t => t.main = .passed ∧ t.timedOut = false ∧ t.submitted = [0] ∧
        t.loop.executed = []) (by decide)
  refine ⟨t, ⟨_, run⟩, passed, timely, 0, by simp [submitted], fun settled => ?_⟩
  have there := settled 0 (by decide)
  rw [executed] at there
  cases there

end ProtoJS.MainLoop
