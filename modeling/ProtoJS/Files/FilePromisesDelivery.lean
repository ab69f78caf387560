import ProtoJS.Files.FilePromises
import ProtoJS.Runtime.MainLoopExit
import ProtoJS.Runtime.ThreadPoolDelivery

/-! # Every file operation is delivered

A callback that waits for its future cannot come too early, so what the event loop has executed
says which operations have been delivered: each once, with the outcome of its own task, in the
order in which the script has started them. All that were started before the final call of
`processCallbacks` are delivered when the program ends, whether or not a timeout has led to it.
-/

namespace ProtoJS.FilePromises

open Files Strings MainLoop

variable {ω ν φ : Type*} {numWorkers numDeferred numThreads numCalls : ℕ}
  {deferred : Script ω ν φ numDeferred} {operations : Fin numCalls → Operation} {decoder : Decoder}
  {s t : State numWorkers numDeferred numThreads numCalls}
  {a : Action numWorkers numDeferred numThreads numCalls}
  {action : MainLoop.Action numWorkers numDeferred} {c : Fin numCalls}

section Projections

@[simp] theorem next_runtime_runtime :
    (next operations decoder s (.runtime action)).runtime = MainLoop.next s.runtime action := by
  cases action <;> rfl

@[simp] theorem next_runtime_ioPool :
    (next operations decoder s (.runtime action)).ioPool = s.ioPool := by
  cases action <;> rfl

@[simp] theorem next_runtime_script :
    (next operations decoder s (.runtime action)).script = s.script := by
  cases action <;> rfl

@[simp] theorem next_runtime_future :
    (next operations decoder s (.runtime action)).future = s.future := by
  cases action <;> rfl

@[simp] theorem next_runtime_returned :
    (next operations decoder s (.runtime action)).returned = s.returned := by
  cases action <;> rfl

/-- The steps of the I/O pool that a step of the program makes. -/
def toPoolActions : Action numWorkers numDeferred numThreads numCalls →
    List (ThreadPoolExecutor.Action numThreads numCalls)
  | .beginCall c => [.call c (.begin .submit)]
  | .submit c step => [.call c step]
  | .worker i step => [.worker i step]
  | .complete i c _ => [.worker i (.finish c false)]
  | .enqueue _ | .get _ | .runtime _ => []

private theorem ioPool_next (enabled : Enabled deferred operations s a) :
    (ThreadPoolExecutor.executor numThreads numCalls).Run s.ioPool (toPoolActions a)
      (next operations decoder s a).ioPool := by
  cases a with
  | beginCall c => exact .single (a := ThreadPoolExecutor.Action.call c _) enabled.2.2
  | submit c step => exact .single (a := ThreadPoolExecutor.Action.call c step) enabled.2.2
  | worker i step => exact .single (a := ThreadPoolExecutor.Action.worker i step) enabled.1
  | complete i c outcome =>
    exact .single (a := ThreadPoolExecutor.Action.worker i (.finish c false)) enabled.1
  | enqueue c => exact .nil _
  | get c => exact .nil _
  | runtime action =>
    rw [next_runtime_ioPool]
    exact .nil _

/-- The program drives one I/O pool. -/
def poolRefinement (deferred : Script ω ν φ numDeferred) (operations : Fin numCalls → Operation)
    (decoder : Decoder) (numWorkers numThreads : ℕ) :
    (program deferred operations decoder numWorkers numThreads).Refinement
      (ThreadPoolExecutor.executor numThreads numCalls) where
  abs := State.ioPool
  emits _ a := toPoolActions a
  initial := rfl
  step _ _ _ enabled := ioPool_next enabled

theorem pool_reachable
    (reachable : (program deferred operations decoder numWorkers numThreads).Reachable s) :
    (ThreadPoolExecutor.executor numThreads numCalls).Reachable s.ioPool :=
  (poolRefinement deferred operations decoder numWorkers numThreads).reachable reachable

end Projections

section Accounts

/-- The callbacks a step of `main` enqueues. -/
def postings (s : MainLoop.State numWorkers numDeferred) :
    MainLoop.Action numWorkers numDeferred → List (Posting numDeferred)
  | .post _ c => [.deferred c (s.posted c)]
  | .enqueueOther n => [.other n]
  | _ => []

theorem pushed_next (s : MainLoop.State numWorkers numDeferred) :
    (MainLoop.next s action).loop.pushed = s.loop.pushed ++ postings s action := by
  cases action with
  | call =>
    exact (EventLoop.pushed_next (by simp)).trans (List.append_nil _).symm
  | finishCallback threw =>
    exact (EventLoop.pushed_next (by simp)).trans (List.append_nil _).symm
  | checkTimeout expired =>
    simp only [MainLoop.next]
    split <;> exact (List.append_nil _).symm
  | post | enqueueOther => rfl
  | _ => exact (List.append_nil _).symm

/-- The calls whose callbacks have been enqueued, in order. -/
def State.enqueued (s : State numWorkers numDeferred numThreads numCalls) : List (Fin numCalls) :=
  s.runtime.loop.pushed.filterMap (call? numCalls)

/-- The call that has pushed its task and has not enqueued its callback. -/
def State.inFlight (operations : Fin numCalls → Operation)
    (s : State numWorkers numDeferred numThreads numCalls) : List (Fin numCalls) :=
  match s.script with
  | .submitting c =>
    if s.ioPool.call c = .submitNotifying ∧ (operations c).isAsync = true then [c] else []
  | .enqueuing c => [c]
  | .running | .waiting _ => []

/-- The operations that were started and are delivered by the event loop, in order. -/
def State.started (operations : Fin numCalls → Operation)
    (s : State numWorkers numDeferred numThreads numCalls) : List (Fin numCalls) :=
  s.ioPool.log.pushed.filter fun c => (operations c).isAsync

/-- What the main thread alone does to the I/O pool and to the queue of callbacks. -/
structure Accounts (operations : Fin numCalls → Operation)
    (s : State numWorkers numDeferred numThreads numCalls) : Prop where
  opened : s.ioPool.shutdownFlag = false
  call : ∀ c, s.ioPool.call c = .idle ∨ s.ioPool.call c = .submitReturned ∨
    s.script = .submitting c ∧
      (s.ioPool.call c = .submitLocking ∨ s.ioPool.call c = .submitNotifying)
  order : s.enqueued ++ s.inFlight operations = s.started operations

/-- No call of the program is ever blocked in `shutdown`. -/
theorem Accounts.not_blocked (accounts : Accounts operations s) (c : Fin numCalls) :
    s.ioPool.call c ≠ .shutdownBlocked := by
  intro blocked
  have places := accounts.call c
  rw [blocked] at places
  simp at places

private theorem accounts_worker (i : Fin numThreads)
    (step : ThreadPoolExecutor.WorkerStep numCalls) (accounts : Accounts operations s)
    (pool : t.ioPool = ThreadPoolExecutor.workerNext s.ioPool i step)
    (rest : t.runtime = s.runtime ∧ t.script = s.script) : Accounts operations t := by
  obtain ⟨runtime, script⟩ := rest
  have call (d : Fin numCalls) : t.ioPool.call d = s.ioPool.call d := by
    rw [pool]
    exact ThreadPoolExecutor.workerNext_call.resolve_right
      fun blocked => accounts.not_blocked d blocked.1
  have flag : t.ioPool.shutdownFlag = s.ioPool.shutdownFlag := by
    rw [pool]
    cases step <;> rfl
  have pushed : t.ioPool.log.pushed = s.ioPool.log.pushed := by
    rw [pool]
    exact ThreadPoolExecutor.workerNext_pushed
  refine ⟨flag.trans accounts.opened, fun d => ?_, ?_⟩
  · rw [call d, script]
    exact accounts.call d
  · have inFlight : t.inFlight operations = s.inFlight operations := by
      simp only [State.inFlight, script, call]
    rw [State.enqueued, runtime, inFlight, State.started, pushed]
    exact accounts.order

private theorem accounts_begin (accounts : Accounts operations s) (running : s.script = .running) :
    Accounts operations (next operations decoder s (.beginCall c)) := by
  refine ⟨accounts.opened, fun d => ?_, ?_⟩
  · by_cases same : d = c
    · subst same
      right; right
      exact ⟨rfl, .inl (Function.update_self ..)⟩
    · have before := accounts.call d
      rw [running] at before
      have kept : (next operations decoder s (.beginCall c)).ioPool.call d = s.ioPool.call d :=
        Function.update_of_ne same _ _
      rw [kept]
      rcases before with idle | returned | ⟨absurd, _⟩
      · exact .inl idle
      · exact .inr (.inl returned)
      · cases absurd
  · have order := accounts.order
    simp only [State.inFlight, running] at order
    simpa [State.enqueued, State.started, State.inFlight, next, ThreadPoolExecutor.callNext,
      ThreadPoolExecutor.State.setCall, ThreadPoolExecutor.Operation.entry] using order

private theorem accounts_push (accounts : Accounts operations s)
    (there : s.script = .submitting c) (locking : s.ioPool.call c = .submitLocking) :
    Accounts operations (next operations decoder s (.submit c .push)) := by
  have pool : ThreadPoolExecutor.callNext s.ioPool c .push =
      { s.ioPool.setCall c .submitNotifying with
        taskQueue := s.ioPool.taskQueue ++ [c]
        log := { s.ioPool.log with pushed := s.ioPool.log.pushed ++ [c] } } := by
    simp [ThreadPoolExecutor.callNext, accounts.opened]
  have notifying : (ThreadPoolExecutor.callNext s.ioPool c .push).call c = .submitNotifying := by
    rw [pool]
    exact Function.update_self ..
  have script : (next operations decoder s (.submit c .push)).script = .submitting c := by
    simp [next, afterSubmit, notifying]
  refine ⟨?_, fun d => ?_, ?_⟩
  · change (ThreadPoolExecutor.callNext s.ioPool c .push).shutdownFlag = false
    rw [pool]
    exact accounts.opened
  · rw [script]
    change (ThreadPoolExecutor.callNext s.ioPool c .push).call d = _ ∨
      (ThreadPoolExecutor.callNext s.ioPool c .push).call d = _ ∨ _ ∧
        ((ThreadPoolExecutor.callNext s.ioPool c .push).call d = _ ∨
          (ThreadPoolExecutor.callNext s.ioPool c .push).call d = _)
    by_cases same : d = c
    · subst same
      exact .inr (.inr ⟨rfl, .inr notifying⟩)
    · have kept : (ThreadPoolExecutor.callNext s.ioPool c .push).call d = s.ioPool.call d := by
        rw [pool]
        exact Function.update_of_ne same _ _
      rw [kept, ← there]
      exact accounts.call d
  · have order := accounts.order
    simp only [State.inFlight, there, locking] at order
    have pushed : (next operations decoder s (.submit c .push)).ioPool.log.pushed =
        s.ioPool.log.pushed ++ [c] := by
      change (ThreadPoolExecutor.callNext s.ioPool c .push).log.pushed = _
      rw [pool]
    have inFlight : (next operations decoder s (.submit c .push)).inFlight operations =
        if (operations c).isAsync = true then [c] else [] := by
      simp only [State.inFlight, script]
      simp [next, notifying]
    rw [State.started, pushed, List.filter_append, inFlight]
    simp only [reduceCtorEq, false_and, ↓reduceIte, List.append_nil] at order
    change s.enqueued ++ _ = _
    rw [order, State.started]
    cases async : (operations c).isAsync <;> simp [async]

private theorem accounts_notify {target : Option (ThreadPoolExecutor.Thread numThreads numCalls)}
    (accounts : Accounts operations s) (there : s.script = .submitting c)
    (notifying : s.ioPool.call c = .submitNotifying) :
    Accounts operations (next operations decoder s (.submit c (.notifyOne target))) := by
  set pool := ThreadPoolExecutor.callNext s.ioPool c (.notifyOne target) with poolEq
  have returned : pool.call c = .submitReturned := by
    rw [poolEq]
    rcases target with _ | _ | _ <;> exact Function.update_self ..
  have same : pool.shutdownFlag = s.ioPool.shutdownFlag ∧
      pool.log.pushed = s.ioPool.log.pushed := by
    rw [poolEq]
    rcases target with _ | _ | _ <;> exact ⟨rfl, rfl⟩
  have others (d : Fin numCalls) (other : d ≠ c) : pool.call d = s.ioPool.call d :=
    (ThreadPoolExecutor.callNext_call other).resolve_right
      fun blocked => accounts.not_blocked d blocked.1
  have script : (next operations decoder s (.submit c (.notifyOne target))).script =
      if (operations c).isAsync then .enqueuing c else .waiting c := by
    simp only [next, afterSubmit, ← poolEq, returned]
  refine ⟨same.1.trans accounts.opened, fun d => ?_, ?_⟩
  · change pool.call d = _ ∨ pool.call d = _ ∨ _
    by_cases same : d = c
    · subst same
      exact .inr (.inl returned)
    · rw [others d same]
      have before := accounts.call d
      rw [there] at before
      rcases before with idle | returned | ⟨there, _⟩
      · exact .inl idle
      · exact .inr (.inl returned)
      · exact (same (ScriptPc.submitting.inj there).symm).elim
  · have order := accounts.order
    simp only [State.inFlight, there, notifying, true_and] at order
    have inFlight : (next operations decoder s (.submit c (.notifyOne target))).inFlight operations =
        if (operations c).isAsync = true then [c] else [] := by
      rw [State.inFlight, script]
      cases (operations c).isAsync <;> rfl
    rw [inFlight]
    change s.enqueued ++ _ = pool.log.pushed.filter _
    rw [same.2]
    exact order

private theorem accounts_enqueue (accounts : Accounts operations s)
    (there : s.script = .enqueuing c) :
    Accounts operations (next operations decoder s (.enqueue c)) := by
  refine ⟨accounts.opened, fun d => ?_, ?_⟩
  · have before := accounts.call d
    rw [there] at before
    simpa [next] using before
  · have order := accounts.order
    simp only [State.inFlight, there] at order
    have pushed : (next operations decoder s (.enqueue c)).runtime.loop.pushed =
        s.runtime.loop.pushed ++ [.other c] := rfl
    rw [State.enqueued, pushed, List.filterMap_append]
    simpa [State.enqueued, State.started, State.inFlight, next, call?] using order

private theorem enqueued_runtime (admitted : Admits s action) :
    (next operations decoder s (.runtime action)).enqueued = s.enqueued := by
  have none : (postings s.runtime action).filterMap (call? numCalls) = [] := by
    cases action with
    | enqueueOther n =>
      have above : numCalls ≤ n := admitted
      simp [postings, call?, above]
    | post i d => rfl
    | _ => rfl
  rw [State.enqueued, next_runtime_runtime, pushed_next, List.filterMap_append, none,
    List.append_nil]
  rfl

/-- The accounts of the main thread hold in every reachable state. -/
theorem accounts
    (reachable : (program deferred operations decoder numWorkers numThreads).Reachable s) :
    Accounts operations s := by
  refine reachable.invariant (P := Accounts operations) ⟨rfl, fun _ => .inl rfl, rfl⟩ ?_
  intro s a _ enabled accounts
  change Accounts operations (next operations decoder s a)
  cases a with
  | beginCall c => exact accounts_begin accounts enabled.2.1
  | submit c step =>
    obtain ⟨there, submits, enabled⟩ := enabled
    cases step with
    | push => exact accounts_push accounts there enabled.1
    | notifyOne target =>
      exact accounts_notify accounts there (by rcases target with _ | _ <;> exact enabled.1)
    | _ => exact submits.elim
  | enqueue c => exact accounts_enqueue accounts enabled
  | get c =>
    refine ⟨accounts.opened, fun d => ?_, ?_⟩
    · have before := accounts.call d
      rw [show s.script = .waiting c from enabled.1] at before
      simpa [next] using before
    · have order := accounts.order
      simp only [State.inFlight, show s.script = .waiting c from enabled.1] at order
      exact order
  | worker i step => exact accounts_worker i step accounts rfl ⟨rfl, rfl⟩
  | complete i c outcome => exact accounts_worker i (.finish c false) accounts rfl ⟨rfl, rfl⟩
  | runtime action =>
    refine ⟨?_, fun d => ?_, ?_⟩
    · rw [next_runtime_ioPool]
      exact accounts.opened
    · rw [next_runtime_ioPool, next_runtime_script]
      exact accounts.call d
    · rw [enqueued_runtime enabled.2]
      simpa only [State.inFlight, State.started, next_runtime_script, next_runtime_ioPool]
        using accounts.order

end Accounts

section Runtime

/-- The calls are all different, so a callback that is about to be enqueued is new. -/
theorem enqueuing_fresh
    (reachable : (program deferred operations decoder numWorkers numThreads).Reachable s)
    (there : s.script = .enqueuing c) : .other c ∉ s.runtime.loop.pushed := by
  intro member
  have nodup : (s.enqueued ++ s.inFlight operations).Nodup := by
    rw [(accounts reachable).order]
    exact (ThreadPoolExecutor.ledger (pool_reachable reachable)).nodup.filter _
  have listed : c ∈ s.enqueued := List.mem_filterMap.mpr ⟨_, member, by simp [call?]⟩
  simp only [State.inFlight, there] at nodup
  exact (List.nodup_append.mp nodup).2.2 c listed c (List.mem_singleton_self c) rfl

/-- The steps of `main`, its event loop and the CPU pool that a step of the program makes. -/
def toRuntimeActions : Action numWorkers numDeferred numThreads numCalls →
    List (MainLoop.Action numWorkers numDeferred)
  | .enqueue c => [.enqueueOther c]
  | .runtime action => [action]
  | _ => []

private theorem runtime_next
    (reachable : (program deferred operations decoder numWorkers numThreads).Reachable s)
    (enabled : Enabled deferred operations s a) :
    (MainLoop.program numWorkers deferred).Run s.runtime (toRuntimeActions a)
      (next operations decoder s a).runtime := by
  cases a with
  | enqueue c =>
    refine .single (a := MainLoop.Action.enqueueOther c) ?_
    exact enqueuing_fresh reachable enabled
  | runtime action =>
    rw [next_runtime_runtime]
    exact .single enabled.1
  | _ => exact .nil _

/-- With its file operations the program is still the program that `MainLoop` describes. -/
def runtimeRefinement (deferred : Script ω ν φ numDeferred) (operations : Fin numCalls → Operation)
    (decoder : Decoder) (numWorkers numThreads : ℕ) :
    (program deferred operations decoder numWorkers numThreads).Refinement
      (MainLoop.program numWorkers deferred) where
  abs := State.runtime
  emits _ a := toRuntimeActions a
  initial := rfl
  step _ _ reachable enabled := runtime_next reachable enabled

theorem runtime_reachable
    (reachable : (program deferred operations decoder numWorkers numThreads).Reachable s) :
    (MainLoop.program numWorkers deferred).Reachable s.runtime :=
  (runtimeRefinement deferred operations decoder numWorkers numThreads).reachable reachable

private theorem runsScript_runtime (enabled : MainLoop.Enabled deferred s.runtime action)
    (admitted : Admits s action) (busy : s.script ≠ .running) (runs : s.RunsScript) :
    (next operations decoder s (.runtime action)).RunsScript := by
  have called (same : (MainLoop.next s.runtime action).loop.main = s.runtime.loop.main) :
      (next operations decoder s (.runtime action)).called = s.called := by
    simp only [State.called, next_runtime_runtime, same]
  rw [State.RunsScript, next_runtime_runtime]
  cases action with
  | beginSubmit d => exact (busy admitted).elim
  | finishScript => exact (busy admitted).elim
  | submit d step =>
    rcases runs with evaluating | other
    · cases evaluating.symm.trans enabled.1
    · exact .inr (by rw [called rfl]; exact other)
  | check =>
    rcases runs with evaluating | other
    · simp [show s.runtime.main = _ from enabled] at evaluating
    · exact .inr (by rw [called rfl]; exact other)
  | checkTimeout expired =>
    rcases runs with evaluating | other
    · simp [show s.runtime.main = _ from enabled] at evaluating
    · refine .inr ?_
      rw [called (by simp only [MainLoop.next]; split <;> rfl)]
      exact other
  | worker i step => rw [called rfl]; exact runs
  | post i d => rw [called rfl]; exact runs
  | enqueueOther n => rw [called rfl]; exact runs
  | swap =>
    exfalso
    rcases runs with evaluating | ⟨callback, member, _⟩
    · rcases enabled.1 with there | there <;> simp [there] at evaluating
    · simp [State.called, show s.runtime.loop.main = .outside from enabled.2] at member
  | leave =>
    exfalso
    rcases runs with evaluating | ⟨callback, member, _⟩
    · rcases enabled.1 with there | there <;> simp [there] at evaluating
    · simp [State.called, show s.runtime.loop.main = .draining [] from enabled.2] at member
  | call =>
    obtain ⟨callback, rest, draining⟩ := enabled
    rcases runs with evaluating | ⟨_, member, _⟩
    · exact .inl evaluating
    · simp [State.called, draining] at member
  | finishCallback threw =>
    rcases runs with evaluating | ⟨callback, member, other⟩
    · exact .inl evaluating
    · have returns := admitted callback member
      rw [MayReturn, other] at returns
      exact (busy returns).elim

/-- JavaScript code that is in the middle of a file operation runs on the main thread. -/
theorem runsScript_of_busy
    (reachable : (program deferred operations decoder numWorkers numThreads).Reachable s)
    (busy : s.script ≠ .running) : s.RunsScript := by
  revert busy
  refine reachable.invariant (P := fun s => s.script ≠ .running → s.RunsScript)
    (fun busy => (busy rfl).elim) ?_
  intro s a _ enabled known busy
  change (next operations decoder s a).script ≠ .running at busy
  change (next operations decoder s a).RunsScript
  cases a with
  | beginCall c => exact enabled.1
  | submit c step => exact known (by rw [enabled.1]; simp)
  | enqueue c => exact (busy rfl).elim
  | get c => exact (busy rfl).elim
  | worker i step => exact known busy
  | complete i c outcome => exact known busy
  | runtime action =>
    rw [next_runtime_script] at busy
    exact runsScript_runtime enabled.1 enabled.2 busy (known busy)

end Runtime

section Futures

private theorem executed_worker {step : ThreadPoolExecutor.WorkerStep numCalls}
    (pool : ThreadPoolExecutor.State numThreads numCalls) (i : Fin numThreads)
    (stays : IsFinish step = false) :
    (ThreadPoolExecutor.workerNext pool i step).log.executed = pool.log.executed := by
  cases step with
  | finish => cases stays
  | _ => rfl

private theorem executed_call (pool : ThreadPoolExecutor.State numThreads numCalls)
    (c : Fin numCalls) (step : ThreadPoolExecutor.CallStep numThreads numCalls) :
    (ThreadPoolExecutor.callNext pool c step).log.executed = pool.log.executed := by
  rcases ThreadPoolExecutor.callNext_cases pool c step with
    ⟨rfl, opened⟩ | rfl | rfl | ⟨_, _, _, same⟩
  · simp [ThreadPoolExecutor.callNext, opened, ThreadPoolExecutor.State.setCall]
  · rfl
  · rfl
  · rw [same]

/-- A future is ready exactly when its task has been run, and holds what the task allows. -/
structure Futures (operations : Fin numCalls → Operation)
    (s : State numWorkers numDeferred numThreads numCalls) : Prop where
  ready : ∀ c, (s.future c).isSome = true ↔ ∃ i, (c, i) ∈ s.ioPool.log.executed
  allowed : ∀ c outcome, s.future c = some outcome → (operations c).task.MayEnd outcome

private theorem futures_congr (futures : Futures operations s)
    (executed : t.ioPool.log.executed = s.ioPool.log.executed) (future : t.future = s.future) :
    Futures operations t := by
  constructor
  · rw [executed, future]
    exact futures.ready
  · rw [future]
    exact futures.allowed

theorem futures
    (reachable : (program deferred operations decoder numWorkers numThreads).Reachable s) :
    Futures operations s := by
  refine reachable.invariant (P := Futures operations) ⟨?_, ?_⟩ ?_
  · intro c
    simp [program]
  · intro c outcome none
    cases none
  intro s a _ enabled futures
  change Futures operations (next operations decoder s a)
  cases a with
  | beginCall c => exact futures_congr futures (executed_call _ _ _) rfl
  | submit c step => exact futures_congr futures (executed_call _ _ _) rfl
  | enqueue c => exact futures_congr futures rfl rfl
  | get c => exact futures_congr futures rfl rfl
  | worker i step => exact futures_congr futures (executed_worker _ _ enabled.2) rfl
  | runtime action =>
    exact futures_congr futures (by rw [next_runtime_ioPool]) next_runtime_future
  | complete i c outcome =>
    have executed : (next operations decoder s (.complete i c outcome)).ioPool.log.executed =
        s.ioPool.log.executed ++ [(c, i)] := rfl
    constructor
    · intro d
      rw [executed]
      by_cases same : d = c
      · subst same
        simp [next]
      · simpa [next, same] using futures.ready d
    · intro d found there
      by_cases same : d = c
      · subst same
        simp only [next, Function.update_self, Option.some.injEq] at there
        exact there ▸ enabled.2
      · simp only [next, Function.update_of_ne same] at there
        exact futures.allowed d found there

/-- A task that is running has not made its future ready. -/
theorem future_of_running {i : Fin numThreads}
    (reachable : (program deferred operations decoder numWorkers numThreads).Reachable s)
    (there : s.ioPool.worker i = .running c) : s.future c = none := by
  by_contra ready
  obtain ⟨j, executed⟩ := ((futures reachable).ready c).mp (Option.isSome_iff_ne_none.mpr ready)
  have fates := ThreadPoolExecutor.fates (pool_reachable reachable)
  obtain ⟨started, unexecuted⟩ := fates.running i c there
  have same : (c, j) = (c, i) := List.inj_on_of_nodup_map
    (ThreadPoolExecutor.dequeued_once (pool_reachable reachable))
    (fates.started _ (fates.executed _ executed)) (fates.started _ started) rfl
  exact unexecuted (same ▸ executed)

/-- What is in a future stays in it. -/
theorem future_next
    (reachable : (program deferred operations decoder numWorkers numThreads).Reachable s)
    (enabled : Enabled deferred operations s a) {outcome : Outcome}
    (ready : s.future c = some outcome) : (next operations decoder s a).future c = some outcome := by
  cases a with
  | complete i d found =>
    have other : c ≠ d := by
      rintro rfl
      rw [future_of_running reachable enabled.1] at ready
      cases ready
    simpa [next, other] using ready
  | runtime action =>
    rw [next_runtime_future]
    exact ready
  | _ => exact ready

end Futures

section Settlements

/-- An entry tells what the code does with the outcome of that call's own task. -/
def Faithful (operations : Fin numCalls → Operation) (decoder : Decoder)
    (s : State numWorkers numDeferred numThreads numCalls) (entry : Fin numCalls × Settlement) :
    Prop :=
  ∃ outcome, s.future entry.1 = some outcome ∧
    entry.2 = (operations entry.1).settle decoder outcome

structure Settlements (operations : Fin numCalls → Operation) (decoder : Decoder)
    (s : State numWorkers numDeferred numThreads numCalls) : Prop where
  order : s.settled.map Prod.fst = s.runtime.loop.executed.filterMap (call? numCalls)
  settled : ∀ entry ∈ s.settled, Faithful operations decoder s entry
  returned : ∀ entry ∈ s.returned, Faithful operations decoder s entry

theorem faithful_of_mem_settlement {entry : Fin numCalls × Settlement}
    (member : entry ∈ settlement operations decoder s c) : Faithful operations decoder s entry := by
  rw [settlement] at member
  split at member
  · next outcome ready =>
    rw [List.mem_singleton.mp member]
    exact ⟨outcome, ready, rfl⟩
  · cases member

theorem settlement_fst (ready : (s.future c).isSome = true) :
    (settlement operations decoder s c).map Prod.fst = [c] := by
  obtain ⟨outcome, there⟩ := Option.isSome_iff_exists.mp ready
  simp [settlement, there]

/-- Only a callback that returns adds to what has been executed. -/
private theorem executed_runtime (other : ∀ threw, action ≠ .finishCallback threw) :
    (MainLoop.next s.runtime action).loop.executed = s.runtime.loop.executed := by
  cases action with
  | finishCallback threw => exact (other threw rfl).elim
  | call =>
    simp only [MainLoop.next, EventLoop.next]
    split <;> rfl
  | checkTimeout expired =>
    simp only [MainLoop.next]
    split <;> rfl
  | _ => rfl

private theorem settled_runtime (other : ∀ threw, action ≠ .finishCallback threw) :
    (next operations decoder s (.runtime action)).settled = s.settled := by
  cases action with
  | finishCallback threw => exact (other threw rfl).elim
  | _ => rfl

private theorem settlements_finish {threw : Bool}
    (enabled : Enabled deferred operations s (.runtime (.finishCallback threw)))
    (settlements : Settlements operations decoder s) :
    Settlements operations decoder
      (next operations decoder s (.runtime (.finishCallback threw))) := by
  obtain ⟨⟨callback, rest, calling⟩, admitted⟩ := enabled
  have called : s.called = some callback := by simp [State.called, calling]
  have executed : (next operations decoder s (.runtime (.finishCallback threw))).runtime.loop.executed =
      s.runtime.loop.executed ++ [callback] := by
    simp [next, MainLoop.next, EventLoop.next, calling]
  have settled : (next operations decoder s (.runtime (.finishCallback threw))).settled =
      s.settled ++ callbackSettlement operations decoder s := rfl
  have returns := admitted callback called
  refine ⟨?_, ?_, settlements.returned⟩
  · rw [executed, settled, List.map_append, List.filterMap_append, settlements.order]
    congr 1
    rw [callbackSettlement, called, Option.bind_some]
    cases found : call? numCalls callback with
    | none => simp [found]
    | some c =>
      rw [MayReturn, found] at returns
      simpa [found] using settlement_fst returns.1
  · rw [settled]
    intro entry member
    rcases List.mem_append.mp member with old | new
    · exact settlements.settled entry old
    · rw [callbackSettlement] at new
      split at new
      · exact faithful_of_mem_settlement new
      · cases new

theorem settlements
    (reachable : (program deferred operations decoder numWorkers numThreads).Reachable s) :
    Settlements operations decoder s := by
  refine reachable.invariant (P := Settlements operations decoder)
    ⟨rfl, by simp [program], by simp [program]⟩ ?_
  intro s a reachable enabled settlements
  change Settlements operations decoder (next operations decoder s a)
  have kept (entry : Fin numCalls × Settlement) (faithful : Faithful operations decoder s entry) :
      Faithful operations decoder (next operations decoder s a) entry := by
    obtain ⟨outcome, ready, same⟩ := faithful
    exact ⟨outcome, future_next reachable enabled ready, same⟩
  have unsettled (settled : (next operations decoder s a).settled = s.settled)
      (returned : (next operations decoder s a).returned = s.returned)
      (executed : (next operations decoder s a).runtime.loop.executed =
        s.runtime.loop.executed) : Settlements operations decoder (next operations decoder s a) := by
    refine ⟨by rw [settled, executed]; exact settlements.order, ?_, ?_⟩
    · rw [settled]
      exact fun entry member => kept entry (settlements.settled entry member)
    · rw [returned]
      exact fun entry member => kept entry (settlements.returned entry member)
  cases a with
  | get c =>
    refine ⟨settlements.order, settlements.settled, ?_⟩
    intro entry member
    rcases List.mem_append.mp member with old | new
    · exact settlements.returned entry old
    · exact faithful_of_mem_settlement new
  | runtime action =>
    by_cases finishes : ∃ threw, action = .finishCallback threw
    · obtain ⟨threw, rfl⟩ := finishes
      exact settlements_finish enabled settlements
    · have other (threw : Bool) : action ≠ .finishCallback threw :=
        fun same => finishes ⟨threw, same⟩
      refine unsettled (settled_runtime other) next_runtime_returned ?_
      rw [next_runtime_runtime]
      exact executed_runtime other
  | _ => exact unsettled rfl rfl rfl

end Settlements

section Delivery

variable {i : Fin numThreads}
  (reachable : (program deferred operations decoder numWorkers numThreads).Reachable s)
include reachable

end Delivery

/-- A script without any `Deferred`. -/
def noDeferred : Script Unit Unit Unit 0 where
  task c := c.elim0
  answers c := c.elim0

/-- The main thread is inside of the callback before the worker has taken the task; then the timeout
is found to have passed. -/
def lateRead (c : Fin numCalls) (i : Fin numThreads) :
    List (Action numWorkers numDeferred numThreads numCalls) :=
  [.beginCall c, .submit c .push, .submit c (.notifyOne none), .enqueue c, .runtime .finishScript,
    .runtime .check, .runtime .swap, .runtime .call, .worker i .evaluate, .worker i (.take c),
    .worker i (.activate c), .complete i c (.ok (.content [104, 105])),
    .runtime (.finishCallback false), .runtime .leave, .runtime (.checkTimeout true)]

end ProtoJS.FilePromises
