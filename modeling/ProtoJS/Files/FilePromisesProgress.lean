import ProtoJS.Files.FilePromisesDelivery
import ProtoJS.Runtime.ThreadPoolProgress

/-! # No file operation holds the main thread up for ever

`get` on a future blocks the main thread, in a blocking call or in a callback of the event loop.
Meanwhile it submits nothing and notifies nobody, so the workers of the I/O pool have only what is
queued already. They cannot run out of steps before the future is ready, and they cannot take more
of them than the work there is allows, whatever the other threads do.
-/

namespace ProtoJS.FilePromises

open Files Strings MainLoop

variable {ω ν φ : Type*} {numWorkers numDeferred numThreads numCalls : ℕ}
  {deferred : Script ω ν φ numDeferred} {operations : Fin numCalls → Operation} {decoder : Decoder}
  {s t : State numWorkers numDeferred numThreads numCalls}
  {a : Action numWorkers numDeferred numThreads numCalls} {c : Fin numCalls}

/-- The main thread is in `get` of the future of a call, or its callback comes to it next. -/
def State.Awaits (s : State numWorkers numDeferred numThreads numCalls) (c : Fin numCalls) : Prop :=
  s.script = .waiting c ∨ s.called = some (.other c)

/-- A step of a worker of the I/O pool that nothing but its code brings about. -/
def IsTaskStep : Action numWorkers numDeferred numThreads numCalls → Bool
  | .worker _ .wakeSpuriously => false
  | .worker _ _ | .complete _ _ _ => true
  | _ => false

def IsSpurious : Action numWorkers numDeferred numThreads numCalls → Bool
  | .worker _ .wakeSpuriously => true
  | _ => false

section Waiting

variable
  (reachable : (program deferred operations decoder numWorkers numThreads).Reachable s)
include reachable

theorem not_runsScript_of_called (called : s.called = some (.other c)) : ¬s.RunsScript := by
  rintro (evaluating | ⟨callback, member, other⟩)
  · have outside : s.runtime.loop.main = .outside :=
      (outside_iff (runtime_reachable reachable)).mpr (by simp [evaluating])
    simp [State.called, outside] at called
  · rw [called, Option.mem_some_iff] at member
    subst member
    simp [call?] at other

/-- While a callback waits for its future, no other code is in the middle of a file operation. -/
theorem running_of_called (called : s.called = some (.other c)) : s.script = .running := by
  by_contra busy
  exact not_runsScript_of_called reachable called (runsScript_of_busy reachable busy)

theorem returned_of_waiting (waiting : s.script = .waiting c) :
    s.ioPool.call c = .submitReturned := by
  revert waiting
  refine reachable.invariant (P := fun s => s.script = .waiting c →
    s.ioPool.call c = .submitReturned) (fun waiting => by cases waiting) ?_
  intro s a _ enabled known waiting
  change (next operations decoder s a).script = _ at waiting
  change (next operations decoder s a).ioPool.call c = _
  have worker (i : Fin numThreads) (step : ThreadPoolExecutor.WorkerStep numCalls)
      (before : s.ioPool.call c = .submitReturned) :
      (ThreadPoolExecutor.workerNext s.ioPool i step).call c = .submitReturned := by
    refine (ThreadPoolExecutor.workerNext_call.resolve_right fun blocked => ?_).trans before
    cases before.symm.trans blocked.1
  cases a with
  | beginCall d => cases waiting
  | submit d step =>
    simp only [next, afterSubmit] at waiting
    split at waiting
    · next returned =>
      split at waiting
      · cases waiting
      · cases waiting
        exact returned
    · cases waiting
    · cases waiting
  | enqueue d => cases waiting
  | get d => cases waiting
  | worker i step => exact worker i step (known waiting)
  | complete i d outcome => exact worker i (.finish d false) (known waiting)
  | runtime action =>
    rw [next_runtime_script] at waiting
    rw [next_runtime_ioPool]
    exact known waiting

theorem pushed_of_awaits (awaits : s.Awaits c) : c ∈ s.ioPool.log.pushed := by
  rcases awaits with waiting | called
  · rw [ThreadPoolExecutor.mem_pushed_iff (pool_reachable reachable),
      returned_of_waiting reachable waiting]
    trivial
  · have loop := (loopRefinement numWorkers deferred).reachable (runtime_reachable reachable)
    obtain ⟨rest, calling⟩ : ∃ rest, s.runtime.loop.main = .calling (.other c) rest := by
      simp only [State.called] at called
      split at called
      · next callback rest there =>
        cases called
        exact ⟨rest, there⟩
      · cases called
    have started : .other c ∈ s.runtime.loop.started := by
      have split : s.runtime.loop.started = _ := EventLoop.started_eq loop
      rw [split, calling]
      exact List.mem_append_right _ (List.mem_singleton_self _)
    have pushed := (EventLoop.ledger loop).delivered_isPrefix.subset started
    have listed : c ∈ s.enqueued := List.mem_filterMap.mpr ⟨_, pushed, by simp [call?]⟩
    have counted : c ∈ s.started operations := by
      rw [← (accounts reachable).order]
      exact List.mem_append_left _ listed
    exact (List.mem_filter.mp counted).1

theorem not_notifying_of_awaits (awaits : s.Awaits c) (d : Fin numCalls) :
    s.ioPool.call d ≠ .submitNotifying := by
  intro notifying
  have script : s.script = .submitting d := by
    have places := (accounts reachable).call d
    rw [notifying] at places
    simpa using places
  rcases awaits with waiting | called
  · cases script.symm.trans waiting
  · cases script.symm.trans (running_of_called reachable called)

/-- A thread that waits goes on waiting, and whatever else happens leaves the I/O pool to its
workers. -/
theorem awaits_next (enabled : Enabled deferred operations s a) (awaits : s.Awaits c)
    (unready : s.future c = none) : (next operations decoder s a).Awaits c ∧
      (IsTaskStep a = false → IsSpurious a = false →
        (next operations decoder s a).ioPool = s.ioPool) := by
  have script {pc : ScriptPc numCalls} (there : s.script = pc) (busy : pc ≠ .running)
      (other : pc ≠ .waiting c) {P : Prop} : P := by
    rcases awaits with waiting | called
    · exact (other (there.symm.trans waiting)).elim
    · exact (busy (there.symm.trans (running_of_called reachable called))).elim
  cases a with
  | beginCall d =>
    exfalso
    rcases awaits with waiting | called
    · cases waiting.symm.trans enabled.2.1
    · exact not_runsScript_of_called reachable called enabled.1
  | submit d step => exact script enabled.1 (by simp) (by simp)
  | enqueue d => exact script enabled (by simp) (by simp)
  | get d =>
    refine script enabled.1 (by simp) fun same => ?_
    cases same
    have ready := enabled.2
    rw [unready] at ready
    cases ready
  | worker i step =>
    refine ⟨awaits, fun task spurious => ?_⟩
    cases step <;> simp [IsTaskStep, IsSpurious] at task spurious
  | complete i d outcome => exact ⟨awaits, fun task => by cases task⟩
  | runtime action =>
    refine ⟨?_, fun _ _ => next_runtime_ioPool⟩
    rcases awaits with waiting | called
    · exact .inl (next_runtime_script.trans waiting)
    · right
      have kept (same : (MainLoop.next s.runtime action).loop.main = s.runtime.loop.main) :
          (next operations decoder s (.runtime action)).called = some (.other c) := by
        rw [← called]
        simp only [State.called, next_runtime_runtime, same]
      obtain ⟨enabled, admitted⟩ := enabled
      cases action with
      | swap => simp [State.called, show s.runtime.loop.main = .outside from enabled.2] at called
      | leave =>
        simp [State.called, show s.runtime.loop.main = .draining [] from enabled.2] at called
      | call =>
        obtain ⟨callback, rest, draining⟩ := enabled
        simp [State.called, draining] at called
      | finishCallback threw =>
        have returns := admitted _ called
        simp [MayReturn, call?, unready] at returns
      | checkTimeout expired =>
        apply kept
        simp only [MainLoop.next]
        split <;> rfl
      | _ => exact kept rfl

end Waiting

section Progress

/-- A future that is ready stays ready. -/
theorem future_run {as : List (Action numWorkers numDeferred numThreads numCalls)}
    (reachable : (program deferred operations decoder numWorkers numThreads).Reachable s)
    (run : (program deferred operations decoder numWorkers numThreads).Run s as t)
    (unready : t.future c = none) : s.future c = none := by
  by_contra ready
  obtain ⟨outcome, there⟩ := Option.ne_none_iff_exists'.mp ready
  have kept : (program deferred operations decoder numWorkers numThreads).Reachable t ∧
      t.future c = some outcome := by
    refine run.preserves (P := fun u =>
      (program deferred operations decoder numWorkers numThreads).Reachable u ∧
        u.future c = some outcome) ⟨reachable, there⟩ ?_
    rintro u a enabled ⟨before, holds⟩
    exact ⟨before.next enabled, future_next before enabled holds⟩
  cases kept.2.symm.trans unready

/-- One step uses up work, or is a spurious wake-up, or is none of the I/O pool's. -/
private theorem work_next
    (reachable : (program deferred operations decoder numWorkers numThreads).Reachable s)
    (enabled : Enabled deferred operations s a) (awaits : s.Awaits c)
    (unready : s.future c = none) :
    (if IsTaskStep a then 1 else 0) +
        ThreadPoolExecutor.work (next operations decoder s a).ioPool ≤
      ThreadPoolExecutor.work s.ioPool + if IsSpurious a then 2 else 0 := by
  have opened := (accounts reachable).opened
  have pool := pool_reachable reachable
  by_cases spurious : IsSpurious a = true
  · cases a with
    | worker i step =>
      cases step <;> simp [IsSpurious] at spurious
      have cost := ThreadPoolExecutor.work_wakeSpuriously (s := s.ioPool) (i := i) enabled.1
      simp [IsTaskStep, IsSpurious, next, cost]
    | _ => simp [IsSpurious] at spurious
  · by_cases task : IsTaskStep a = true
    · have less : ThreadPoolExecutor.work (next operations decoder s a).ioPool <
          ThreadPoolExecutor.work s.ioPool := by
        cases a with
        | worker i step =>
          refine ThreadPoolExecutor.work_workerNext pool opened enabled.1 ?_
          rintro rfl
          exact spurious rfl
        | complete i d outcome =>
          exact ThreadPoolExecutor.work_workerNext pool opened enabled.1 (by simp)
        | _ => simp [IsTaskStep] at task
      rw [if_pos task]
      omega
    · have same := (awaits_next reachable enabled awaits unready).2 (by simpa using task)
        (by simpa using spurious)
      rw [same, if_neg task]
      omega

/-- Until the future is ready the main thread waits, and the steps of the workers use up work. -/
theorem awaits_run {as : List (Action numWorkers numDeferred numThreads numCalls)}
    (reachable : (program deferred operations decoder numWorkers numThreads).Reachable s)
    (run : (program deferred operations decoder numWorkers numThreads).Run s as t)
    (awaits : s.Awaits c) (unready : t.future c = none) :
    t.Awaits c ∧ as.countP IsTaskStep + ThreadPoolExecutor.work t.ioPool ≤
      ThreadPoolExecutor.work s.ioPool + 2 * as.countP IsSpurious := by
  induction run with
  | nil s => exact ⟨awaits, by simp⟩
  | @cons s t a as enabled rest ih =>
    have before : s.future c = none := future_run reachable (.cons enabled rest) unready
    obtain ⟨after, -⟩ := awaits_next reachable enabled awaits before
    obtain ⟨still, later⟩ := ih (reachable.next enabled) after unready
    refine ⟨still, ?_⟩
    have first := work_next reachable enabled awaits before
    change _ + ThreadPoolExecutor.work ((program deferred operations decoder numWorkers
      numThreads).next s a).ioPool ≤ _ at first
    rw [List.countP_cons, List.countP_cons]
    split at first <;> split at first <;> simp_all <;> omega

/-- Some outcome of each task there always is. -/
theorem exists_outcome (task : Task) : ∃ outcome, task.MayEnd outcome := by
  cases task with
  | readFile filePath => exact ⟨.ok (.content []), trivial⟩
  | writeFile filePath fileContent => exact ⟨.ok (.good true), trivial⟩
  | readdir dirPath => exact ⟨.ok (.entries []), trivial⟩
  | mkdir dirPath => exact ⟨.ok (.good true), trivial⟩
  | stat filePath => exact ⟨.error _, rfl⟩

/-- Until the future is ready, some worker can take a step. -/
theorem exists_taskStep (positive : 0 < numThreads)
    (reachable : (program deferred operations decoder numWorkers numThreads).Reachable s)
    (awaits : s.Awaits c) (unready : s.future c = none) :
    ∃ a, IsTaskStep a = true ∧
      (program deferred operations decoder numWorkers numThreads).Enabled s a := by
  have unexecuted (i : Fin numThreads) : (c, i) ∉ s.ioPool.log.executed := by
    intro executed
    have ready := ((futures reachable).ready c).mpr ⟨i, executed⟩
    simp [unready] at ready
  obtain ⟨i, move, awake, enabled⟩ := ThreadPoolExecutor.canWork_of_unexecuted positive
    (pool_reachable reachable) (accounts reachable).opened
    (not_notifying_of_awaits reachable awaits) (pushed_of_awaits reachable awaits) unexecuted
  cases move with
  | wakeSpuriously => exact (awake rfl).elim
  | finish task threw =>
    obtain ⟨outcome, allowed⟩ := exists_outcome (operations task).task
    exact ⟨.complete i task outcome, rfl, enabled, allowed⟩
  | evaluate => exact ⟨.worker i .evaluate, rfl, enabled, rfl⟩
  | block => exact ⟨.worker i .block, rfl, enabled, rfl⟩
  | exit => exact ⟨.worker i .exit, rfl, enabled, rfl⟩
  | take task => exact ⟨.worker i (.take task), rfl, enabled, rfl⟩
  | skip => exact ⟨.worker i .skip, rfl, enabled, rfl⟩
  | activate task => exact ⟨.worker i (.activate task), rfl, enabled, rfl⟩
  | deactivate => exact ⟨.worker i .deactivate, rfl, enabled, rfl⟩
  | notifyAll => exact ⟨.worker i .notifyAll, rfl, enabled, rfl⟩

/-- Whenever the main thread waits for a file operation: in no run, whatever the other threads do
in it, do the workers take more steps than their work and the spurious wake-ups allow before the
future is ready, and until then some worker can take a step. -/
theorem every_wait_ends (positive : 0 < numThreads)
    (reachable : (program deferred operations decoder numWorkers numThreads).Reachable s)
    (awaits : s.Awaits c) {as : List (Action numWorkers numDeferred numThreads numCalls)}
    (run : (program deferred operations decoder numWorkers numThreads).Run s as t)
    (unready : t.future c = none) :
    t.Awaits c ∧
      as.countP IsTaskStep ≤ ThreadPoolExecutor.work s.ioPool + 2 * as.countP IsSpurious ∧
      ∃ a, IsTaskStep a = true ∧
        (program deferred operations decoder numWorkers numThreads).Enabled t a := by
  obtain ⟨still, spent⟩ := awaits_run reachable run awaits unready
  exact ⟨still, by omega, exists_taskStep positive (reachable.run run) still unready⟩

/-- The callback waits; the worker has just seen the task in the queue, and goes on. -/
theorem every_wait_ends_waiting :
    ∃ s t, (program noDeferred (fun _ : Fin 1 => ⟨.readFile [112], .resolving⟩) .lossy 1 1).Run s
        [.worker 0 .evaluate] t ∧ s.called = some (.other 0) ∧ t.future 0 = none ∧
      ∃ a, IsTaskStep a = true ∧ (program noDeferred
        (fun _ : Fin 1 => ⟨.readFile [112], .resolving⟩) .lossy 1 1).Enabled t a := by
  obtain ⟨s, run, called, rest⟩ :=
    (program noDeferred (fun _ : Fin 1 => ⟨.readFile [112], .resolving⟩) .lossy 1 1
      ).exists_run_of_replay {} ((lateRead 0 0).take 8) (fun s => s.called = some (.other 0) ∧
        (((program noDeferred (fun _ : Fin 1 => ⟨.readFile [112], .resolving⟩) .lossy 1 1).replay s
          [.worker 0 .evaluate]).any fun t => decide (t.future 0 = none)) = true)
      (by decide +kernel)
  obtain ⟨t, later, unready⟩ := Machine.exists_run_of_replay s _ _ rest
  refine ⟨s, t, later, called, unready, ?_⟩
  exact (every_wait_ends (by decide) ⟨_, run⟩ (.inr called) later unready).2.2

end Progress

end ProtoJS.FilePromises
