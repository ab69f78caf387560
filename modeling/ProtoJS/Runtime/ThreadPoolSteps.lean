import ProtoJS.Runtime.ThreadPoolExecutor

/-! # What one step of the executor can change

A thread that does not take the step keeps its place or is woken from `condition.wait`. While a
thread holds `queueMutex` no other thread changes the queue, the flags or the lock. Both flags
only rise, and a closed queue never grows. These facts carry the invariants: who holds the lock,
what a worker about to block has seen, and which workers `activeCount` counts.
-/

namespace ProtoJS.ThreadPoolExecutor

open State

variable {numThreads numCalls : ℕ} {s : State numThreads numCalls}
  {i j : Fin numThreads} {c d : Fin numCalls} {t : Thread numThreads numCalls}
  {move : WorkerStep numCalls} {step : CallStep numThreads numCalls}
  {a : Action numThreads numCalls}

/-- The places of a worker between taking `queueMutex` and releasing it. -/
def WorkerPc.HoldsLock : WorkerPc numCalls → Prop
  | .mustBlock | .admitted | .taken _ => True
  | _ => False

theorem WorkerPc.wake_eq (pc : WorkerPc numCalls) :
    pc.wake = pc ∨ pc = .blocked ∧ pc.wake = .waiting := by
  cases pc <;> simp [WorkerPc.wake]

theorem CallPc.wake_eq (pc : CallPc) :
    pc.wake = pc ∨ pc = .shutdownBlocked ∧ pc.wake = .shutdownWaiting := by
  cases pc <;> simp [CallPc.wake]

theorem WorkerPc.wake_ne_blocked (pc : WorkerPc numCalls) : pc.wake ≠ .blocked := by
  cases pc <;> simp [WorkerPc.wake]

section Source

/-- The place from which a worker takes a step. -/
def WorkerStep.source : WorkerStep numCalls → WorkerPc numCalls
  | .evaluate => .waiting
  | .block => .mustBlock
  | .wakeSpuriously => .blocked
  | .exit | .take _ | .skip => .admitted
  | .activate task => .taken task
  | .finish task _ => .running task
  | .deactivate => .finished
  | .notifyAll => .notifying

theorem worker_source (enabled : WorkerEnabled s i move) : s.worker i = move.source := by
  cases move with
  | evaluate | exit | take task | skip => exact enabled.1
  | _ => exact enabled

/-- The places from which a call takes a step. -/
def CallStep.sources : CallStep numThreads numCalls → List CallPc
  | .begin _ => [.idle]
  | .push => [.submitLocking]
  | .notifyOne _ => [.submitNotifying]
  | .close => [.shutdownLocking]
  | .closeNow => [.shutdownNowLocking]
  | .announce => [.shutdownNotifying, .shutdownNowNotifying]
  | .evaluate => [.shutdownWaiting]
  | .block => [.shutdownMustBlock]
  | .wakeSpuriously => [.shutdownBlocked]
  | .join => [.shutdownJoining, .shutdownNowJoining]

theorem call_sources (enabled : CallEnabled s c step) : s.call c ∈ step.sources := by
  cases step with
  | notifyOne target => cases target <;> exact List.mem_singleton.mpr enabled.1
  | push | close | closeNow | evaluate => exact List.mem_singleton.mpr enabled.1
  | announce => simpa [CallStep.sources, CallEnabled] using enabled
  | join => simpa [CallStep.sources, CallEnabled] using enabled.1
  | begin _ | block | wakeSpuriously => exact List.mem_singleton.mpr enabled

/-- What holds of every place that a step is taken from holds of the call that takes it. -/
theorem call_of_sources {P : CallPc → Prop} (enabled : CallEnabled s c step)
    (holds : ∀ pc ∈ step.sources, P pc) : P (s.call c) := holds _ (call_sources enabled)

/-- A call changes the queue, the flags and the log in three of its steps only. -/
theorem callNext_cases (s : State numThreads numCalls) (c : Fin numCalls)
    (step : CallStep numThreads numCalls) :
    (step = .push ∧ s.shutdownFlag = false) ∨ step = .close ∨ step = .closeNow ∨
      ∃ worker call queueMutex, callNext s c step =
        { s with worker := worker, call := call, queueMutex := queueMutex } := by
  have moved {t : State numThreads numCalls}
      (same : t = { s with worker := t.worker, call := t.call, queueMutex := t.queueMutex }) :
      ∃ worker call queueMutex,
        t = { s with worker := worker, call := call, queueMutex := queueMutex } :=
    ⟨_, _, _, same⟩
  cases step with
  | push =>
    by_cases opened : s.shutdownFlag = false
    · exact .inl ⟨rfl, opened⟩
    · have threw : callNext s c .push = s.setCall c .submitThrew := by simp [callNext, opened]
      rw [threw]
      exact .inr (.inr (.inr (moved rfl)))
  | close => exact .inr (.inl rfl)
  | closeNow => exact .inr (.inr (.inl rfl))
  | notifyOne target => rcases target with _ | _ | _ <;> exact .inr (.inr (.inr (moved rfl)))
  | evaluate =>
    refine .inr (.inr (.inr (moved ?_)))
    simp only [callNext]
    split <;> rfl
  | _ => exact .inr (.inr (.inr (moved rfl)))

end Source

/-- Where the evaluation of its wait predicate leaves a worker. -/
theorem evaluate_worker : (workerNext s i .evaluate).worker i =
    if s.workAvailable then .admitted else .mustBlock := Function.update_self ..

section Frame

/-- Being left alone or woken neither enters nor leaves a place past the wait. -/
theorem WorkerPc.eq_iff_of_frame {before after pc : WorkerPc numCalls}
    (frame : after = before ∨ before = .blocked ∧ after = .waiting)
    (past : pc ≠ .waiting) (unblocked : pc ≠ .blocked) : after = pc ↔ before = pc := by
  rcases frame with same | ⟨blocked, waiting⟩
  · rw [same]
  · rw [blocked, waiting]
    exact iff_of_false past.symm unblocked.symm

/-- A worker accepts no task. -/
@[simp] theorem workerNext_pushed : (workerNext s i move).log.pushed = s.log.pushed := by
  cases move <;> rfl

/-- A worker leaves the place of every other worker alone, or wakes it. -/
theorem workerNext_worker (other : j ≠ i) :
    (workerNext s i move).worker j = s.worker j ∨
      s.worker j = .blocked ∧ (workerNext s i move).worker j = .waiting := by
  cases move with
  | notifyAll =>
    simpa only [workerNext, setWorker, State.notifyAll, Function.update_of_ne other]
      using (s.worker j).wake_eq
  | _ => exact .inl (Function.update_of_ne other _ _)

theorem workerNext_call :
    (workerNext s i move).call c = s.call c ∨
      s.call c = .shutdownBlocked ∧ (workerNext s i move).call c = .shutdownWaiting := by
  cases move with
  | notifyAll => exact (s.call c).wake_eq
  | _ => exact .inl rfl

theorem callNext_worker :
    (callNext s c step).worker i = s.worker i ∨
      s.worker i = .blocked ∧ (callNext s c step).worker i = .waiting := by
  cases step with
  | announce => exact (s.worker i).wake_eq
  | notifyOne target =>
    rcases target with _ | j | d
    · exact .inl rfl
    · by_cases same : i = j
      · subst same
        simpa only [callNext, State.wake, setWorker, setCall, Function.update_self]
          using (s.worker i).wake_eq
      · exact .inl (Function.update_of_ne same _ _)
    · exact .inl rfl
  | push => left; simp only [callNext]; split <;> rfl
  | evaluate => left; simp only [callNext]; split <;> rfl
  | _ => exact .inl rfl

theorem callNext_call (other : d ≠ c) :
    (callNext s c step).call d = s.call d ∨
      s.call d = .shutdownBlocked ∧ (callNext s c step).call d = .shutdownWaiting := by
  cases step with
  | announce =>
    simpa only [callNext, setCall, State.notifyAll, Function.update_of_ne other]
      using (s.call d).wake_eq
  | notifyOne target =>
    rcases target with _ | j | e
    · exact .inl (Function.update_of_ne other _ _)
    · exact .inl (Function.update_of_ne other _ _)
    · simp only [callNext, State.wake, setCall, Function.update_of_ne other]
      by_cases same : d = e
      · subst same
        simpa only [Function.update_self] using (s.call d).wake_eq
      · exact .inl (Function.update_of_ne same _ _)
  | push => left; simp only [callNext]; split <;> exact Function.update_of_ne other _ _
  | evaluate => left; simp only [callNext]; split <;> exact Function.update_of_ne other _ _
  | _ => exact .inl (Function.update_of_ne other _ _)

/-- The thread that takes the step. -/
def Action.actor : Action numThreads numCalls → Thread numThreads numCalls
  | .worker i _ => .worker i
  | .call c _ => .call c

theorem worker_of_not_actor (other : a.actor ≠ .worker j) :
    ((executor numThreads numCalls).next s a).worker j = s.worker j ∨
      s.worker j = .blocked ∧ ((executor numThreads numCalls).next s a).worker j = .waiting := by
  cases a with
  | worker i move => exact workerNext_worker (fun same => other (congrArg Thread.worker same.symm))
  | call c step => exact callNext_worker

theorem call_of_not_actor (other : a.actor ≠ .call d) :
    ((executor numThreads numCalls).next s a).call d = s.call d ∨
      s.call d = .shutdownBlocked ∧
        ((executor numThreads numCalls).next s a).call d = .shutdownWaiting := by
  cases a with
  | worker i move => exact workerNext_call
  | call c step => exact callNext_call (fun same => other (congrArg Thread.call same.symm))

/-- A worker found past its wait without having acted was there before. -/
theorem worker_stays {pc : WorkerPc numCalls} (other : a.actor ≠ .worker j)
    (there : ((executor numThreads numCalls).next s a).worker j = pc) (ne : pc ≠ .waiting) :
    s.worker j = pc := by
  rcases worker_of_not_actor (s := s) other with same | ⟨_, woken⟩
  · exact same.symm.trans there
  · exact (ne (there.symm.trans woken)).elim

theorem call_stays {pc : CallPc} (other : a.actor ≠ .call d)
    (there : ((executor numThreads numCalls).next s a).call d = pc) (ne : pc ≠ .shutdownWaiting) :
    s.call d = pc := by
  rcases call_of_not_actor (s := s) other with same | ⟨_, woken⟩
  · exact same.symm.trans there
  · exact (ne (there.symm.trans woken)).elim

end Frame

section Lock

/-- Who holds `queueMutex` between two steps. -/
structure Locking (s : State numThreads numCalls) : Prop where
  worker : ∀ i, (s.worker i).HoldsLock → s.queueMutex = some (.worker i)
  call : ∀ c, s.call c = .shutdownMustBlock → s.queueMutex = some (.call c)

/-- While the lock is held, the queue, the flags and the lock are the holder's alone. -/
theorem Locking.exclusion (locking : Locking s)
    (enabled : (executor numThreads numCalls).Enabled s a)
    (held : s.queueMutex = some t) (other : a.actor ≠ t) :
    ((executor numThreads numCalls).next s a).taskQueue = s.taskQueue ∧
      ((executor numThreads numCalls).next s a).shutdownFlag = s.shutdownFlag ∧
      ((executor numThreads numCalls).next s a).queueMutex = some t := by
  have free {P : Prop} (unlocked : s.queueMutex = none) : P := by
    rw [unlocked] at held
    contradiction
  have holder {P : Prop} (holds : s.queueMutex = some a.actor) : P :=
    (other (Option.some.inj (holds.symm.trans held))).elim
  cases a with
  | worker i move =>
    have inside (holds : move.source.HoldsLock) : s.queueMutex = some (.worker i) :=
      locking.worker i (worker_source enabled ▸ holds)
    cases move with
    | evaluate => exact free enabled.2
    | block | activate task | exit | take task | skip => exact holder (inside trivial)
    | wakeSpuriously | finish task threw | deactivate | notifyAll => exact ⟨rfl, rfl, held⟩
  | call c step =>
    cases step with
    | push | close | closeNow | evaluate => exact free enabled.2
    | block => exact holder (locking.call c enabled)
    | notifyOne target => rcases target with _ | _ | _ <;> exact ⟨rfl, rfl, held⟩
    | begin operation | announce | wakeSpuriously | join => exact ⟨rfl, rfl, held⟩

private theorem holdsLock_before (other : a.actor ≠ .worker j)
    (holds : (((executor numThreads numCalls).next s a).worker j).HoldsLock) :
    (s.worker j).HoldsLock := by
  rcases worker_of_not_actor (s := s) other with same | ⟨_, woken⟩
  · exact same ▸ holds
  · rw [woken] at holds
    exact holds.elim

private theorem locking_worker (enabled : WorkerEnabled s i move) (locking : Locking s)
    (holds : ((workerNext s i move).worker i).HoldsLock) :
    (workerNext s i move).queueMutex = some (.worker i) := by
  cases move with
  | evaluate => rfl
  | take task => exact locking.worker i (by rw [enabled.1]; trivial)
  | _ => simp [workerNext, setWorker, WorkerPc.HoldsLock] at holds

private theorem locking_call
    (there : (callNext s c step).call c = .shutdownMustBlock) :
    (callNext s c step).queueMutex = some (.call c) := by
  cases step with
  | begin operation => cases operation <;> simp [callNext, setCall, Operation.entry] at there
  | push => simp only [callNext] at there; split at there <;> simp [setCall] at there
  | notifyOne target => rcases target with _ | _ | _ <;> simp [callNext, setCall] at there
  | announce | join =>
    simp only [callNext, setCall, Function.update_self] at there
    split at there <;> contradiction
  | evaluate =>
    simp only [callNext] at there ⊢
    split at there
    · simp [setCall] at there
    · rename_i undrained
      rw [if_neg undrained]
  | _ => simp [callNext, setCall] at there

/-- In every reachable state a thread inside a locked region holds the lock. -/
theorem locking (reachable : (executor numThreads numCalls).Reachable s) : Locking s := by
  have start : Locking (executor numThreads numCalls).initial :=
    ⟨fun _ holds => False.elim holds, fun _ there => nomatch there⟩
  apply reachable.invariant start
  intro s a _ enabled locking
  refine ⟨fun j holds => ?_, fun d there => ?_⟩
  · by_cases acts : a.actor = .worker j
    · cases a <;> cases acts
      exact locking_worker enabled locking holds
    · exact (locking.exclusion enabled (locking.worker j (holdsLock_before acts holds)) acts).2.2
  · by_cases acts : a.actor = .call d
    · cases a <;> cases acts
      exact locking_call there
    · exact (locking.exclusion enabled
        (locking.call d (call_stays acts there (by simp))) acts).2.2

/-- A worker about to block found an empty queue and no shutdown, and both still stand. -/
theorem blocking_worker (reachable : (executor numThreads numCalls).Reachable s)
    (there : s.worker i = .mustBlock) : s.taskQueue = [] ∧ s.shutdownFlag = false := by
  revert there
  refine reachable.invariant (P := fun s => s.worker i = .mustBlock →
    s.taskQueue = [] ∧ s.shutdownFlag = false) (fun there => ?_) ?_
  · contradiction
  intro s a reachable enabled frozen there
  by_cases acts : a.actor = .worker i
  · cases a with
    | call c step => cases acts
    | worker j move =>
      cases acts
      cases move with
      | evaluate =>
        change (workerNext s i .evaluate).worker i = _ at there
        rw [evaluate_worker] at there
        split at there
        · contradiction
        · rename_i unavailable
          have seen : s.taskQueue = [] ∧ s.shutdownFlag = false := by
            simpa [workAvailable] using unavailable
          exact seen
      | _ => simp [executor, workerNext, setWorker] at there
  · have before := worker_stays acts there (by simp)
    have held := (locking reachable).worker i (by rw [before]; trivial)
    have unchanged := (locking reachable).exclusion enabled held acts
    rw [unchanged.1, unchanged.2.1]
    exact frozen before

end Lock

section Closing

theorem shutdownFlag_next (closed : s.shutdownFlag = true) :
    ((executor numThreads numCalls).next s a).shutdownFlag = true := by
  rcases a with ⟨i, move⟩ | ⟨c, step⟩
  · cases move <;> exact closed
  · change (callNext s c step).shutdownFlag = true
    rcases callNext_cases s c step with ⟨rfl, opened⟩ | rfl | rfl | ⟨_, _, _, same⟩
    · cases opened.symm.trans closed
    · rfl
    · rfl
    · rw [same]
      exact closed

theorem shutdownNowFlag_next (closed : s.shutdownNowFlag = true) :
    ((executor numThreads numCalls).next s a).shutdownNowFlag = true := by
  rcases a with ⟨i, move⟩ | ⟨c, step⟩
  · cases move <;> exact closed
  · change (callNext s c step).shutdownNowFlag = true
    rcases callNext_cases s c step with ⟨rfl, opened⟩ | rfl | rfl | ⟨_, _, _, same⟩
    · simpa [callNext, opened, setCall] using closed
    · exact closed
    · rfl
    · rw [same]
      exact closed

/-- No step adds to the queue of a closed pool. -/
theorem taskQueue_next (closed : s.shutdownFlag = true) (empty : s.taskQueue = []) :
    ((executor numThreads numCalls).next s a).taskQueue = [] := by
  rcases a with ⟨i, move⟩ | ⟨c, step⟩
  · cases move with
    | take task => exact congrArg List.tail empty
    | _ => exact empty
  · change (callNext s c step).taskQueue = []
    rcases callNext_cases s c step with ⟨rfl, opened⟩ | rfl | rfl | ⟨_, _, _, same⟩
    · cases opened.symm.trans closed
    · exact empty
    · rfl
    · rw [same]
      exact empty

/-- A call of `shutdown` or `shutdownNow` that is past its first locked region. -/
def CallPc.Closing : CallPc → Prop
  | .shutdownNotifying | .shutdownWaiting | .shutdownMustBlock | .shutdownBlocked
  | .shutdownJoining | .shutdownReturned | .shutdownNowNotifying | .shutdownNowJoining
  | .shutdownNowReturned => True
  | _ => False

private theorem closing_call (enabled : CallEnabled s c step)
    (flagged : (s.call c).Closing → s.shutdownFlag = true)
    (closing : ((callNext s c step).call c).Closing) :
    (callNext s c step).shutdownFlag = true := by
  have kept (there : (s.call c).Closing) : (callNext s c step).shutdownFlag = true :=
    shutdownFlag_next (a := .call c step) (flagged there)
  cases step with
  | begin operation =>
    cases operation <;> simp [callNext, setCall, Operation.entry, CallPc.Closing] at closing
  | push =>
    simp only [callNext] at closing
    split at closing <;> simp [setCall, CallPc.Closing] at closing
  | notifyOne target =>
    rcases target with _ | _ | _ <;> simp [callNext, setCall, CallPc.Closing] at closing
  | close | closeNow => rfl
  | announce | evaluate | block | wakeSpuriously | join =>
    exact kept (call_of_sources enabled (by simp [CallStep.sources, CallPc.Closing]))

/-- Only a closed pool has a closing call past its first region. -/
theorem closed_of_closing (reachable : (executor numThreads numCalls).Reachable s)
    (closing : (s.call c).Closing) : s.shutdownFlag = true := by
  revert closing
  refine reachable.invariant (P := fun s => (s.call c).Closing → s.shutdownFlag = true)
    (fun closing => False.elim closing) ?_
  intro s a _ enabled flagged closing
  by_cases acts : a.actor = .call c
  · cases a <;> cases acts
    exact closing_call enabled flagged closing
  · rcases call_of_not_actor (s := s) acts with same | ⟨before, _⟩
    · exact shutdownFlag_next (flagged (same ▸ closing))
    · exact shutdownFlag_next (flagged (by rw [before]; trivial))

/-- A worker leaves a closed pool only, once its queue is empty or it is shut down at once. -/
theorem closed_of_exited (reachable : (executor numThreads numCalls).Reachable s)
    (there : s.worker i = .exited) :
    s.shutdownFlag = true ∧ (s.taskQueue = [] ∨ s.shutdownNowFlag = true) := by
  revert there
  refine reachable.invariant (P := fun s => s.worker i = .exited →
    s.shutdownFlag = true ∧ (s.taskQueue = [] ∨ s.shutdownNowFlag = true)) (fun there => ?_) ?_
  · contradiction
  intro s a _ enabled left there
  have kept (before : s.worker i = .exited) :
      ((executor numThreads numCalls).next s a).shutdownFlag = true ∧
        (((executor numThreads numCalls).next s a).taskQueue = [] ∨
          ((executor numThreads numCalls).next s a).shutdownNowFlag = true) := by
    obtain ⟨closed, empty | now⟩ := left before
    · exact ⟨shutdownFlag_next closed, .inl (taskQueue_next closed empty)⟩
    · exact ⟨shutdownFlag_next closed, .inr (shutdownNowFlag_next now)⟩
  by_cases acts : a.actor = .worker i
  · rcases a with ⟨j, move⟩ | _ <;> cases acts
    cases move with
    | exit =>
      have test : s.shutdownFlag = true ∧ (s.taskQueue = [] ∨ s.shutdownNowFlag = true) := by
        simpa [exitTest] using enabled.2
      exact test
    | evaluate =>
      change (workerNext s i .evaluate).worker i = _ at there
      rw [evaluate_worker] at there
      split at there <;> contradiction
    | _ => simp [executor, workerNext, setWorker] at there
  · exact kept (worker_stays acts there (by simp))

end Closing

section Count

/-- The places of a worker between `activeCount++` and `activeCount--`. -/
def WorkerPc.active : WorkerPc numCalls → ℕ
  | .running _ | .finished => 1
  | _ => 0

theorem WorkerPc.active_wake (pc : WorkerPc numCalls) : pc.wake.active = pc.active := by
  cases pc <;> rfl

/-- Moving one worker changes the number of active ones by what that worker contributes. -/
theorem sum_active_setWorker (s : State numThreads numCalls) (i : Fin numThreads)
    (pc : WorkerPc numCalls) :
    (∑ j, ((s.setWorker i pc).worker j).active) + (s.worker i).active =
      (∑ j, (s.worker j).active) + pc.active := by
  have moved : (fun j => ((s.setWorker i pc).worker j).active) =
      Function.update (fun j => (s.worker j).active) i pc.active := by
    funext j
    by_cases same : j = i
    · subst same
      simp [setWorker]
    · simp [setWorker, same]
  rw [moved, Finset.sum_update_of_mem (Finset.mem_univ i),
    Finset.sum_eq_add_sum_sdiff_singleton_of_mem (Finset.mem_univ i) (fun j => (s.worker j).active)]
  omega

theorem sum_active_notifyAll (s : State numThreads numCalls) :
    ∑ j, (s.notifyAll.worker j).active = ∑ j, (s.worker j).active :=
  Finset.sum_congr rfl fun j _ => (s.worker j).active_wake

private theorem activeCount_worker (enabled : WorkerEnabled s i move)
    (count : s.activeCount = ∑ j, (s.worker j).active) :
    (workerNext s i move).activeCount = ∑ j, ((workerNext s i move).worker j).active := by
  have keeps (pc : WorkerPc numCalls) (same : pc.active = move.source.active) :
      s.activeCount = ∑ j, ((s.setWorker i pc).worker j).active := by
    have moved := sum_active_setWorker s i pc
    rw [worker_source enabled] at moved
    omega
  cases move with
  | evaluate => exact keeps _ (by split <;> rfl)
  | block | wakeSpuriously | exit | take task | skip => exact keeps _ rfl
  | activate task =>
    have moved := sum_active_setWorker s i (.running task)
    rw [enabled] at moved
    change _ + 0 = _ + 1 at moved
    change s.activeCount + 1 = ∑ j, ((s.setWorker i (.running task)).worker j).active
    omega
  | finish task threw => exact keeps _ rfl
  | deactivate =>
    have moved := sum_active_setWorker s i .notifying
    rw [enabled] at moved
    change _ + 1 = _ + 0 at moved
    change s.activeCount - 1 = ∑ j, ((s.setWorker i .notifying).worker j).active
    omega
  | notifyAll =>
    have moved := sum_active_setWorker s.notifyAll i .waiting
    have idle : (s.notifyAll.worker i).active = 0 :=
      (s.worker i).active_wake.trans (congrArg WorkerPc.active enabled)
    rw [sum_active_notifyAll, idle] at moved
    change _ + 0 = _ + 0 at moved
    change s.activeCount = ∑ j, ((s.notifyAll.setWorker i .waiting).worker j).active
    omega

/-- `activeCount` counts the workers that are inside a task or about to leave one. -/
theorem activeCount_eq (reachable : (executor numThreads numCalls).Reachable s) :
    s.activeCount = ∑ j, (s.worker j).active := by
  refine reachable.invariant (P := fun s => s.activeCount = ∑ j, (s.worker j).active) ?_ ?_
  · exact (Finset.sum_eq_zero fun _ _ => rfl).symm
  intro s a _ enabled count
  rcases a with ⟨i, move⟩ | ⟨c, step⟩
  · exact activeCount_worker enabled count
  · have same (j : Fin numThreads) :
        (((executor numThreads numCalls).next s (.call c step)).worker j).active =
          (s.worker j).active := by
      rcases worker_of_not_actor (s := s) (a := .call c step) (j := j) (by simp [Action.actor])
        with same | ⟨before, after⟩
      · rw [same]
      · rw [before, after]
        rfl
    rw [Finset.sum_congr rfl fun j _ => same j, ← count]
    change (callNext s c step).activeCount = s.activeCount
    rcases callNext_cases s c step with ⟨rfl, opened⟩ | rfl | rfl | ⟨_, _, _, same⟩
    · simp [callNext, opened, setCall]
    · rfl
    · rfl
    · rw [same]

theorem activeCount_eq_zero_iff (reachable : (executor numThreads numCalls).Reachable s) :
    s.activeCount = 0 ↔ ∀ i, (s.worker i).active = 0 := by
  rw [activeCount_eq reachable, Finset.sum_eq_zero_iff]
  simp

end Count

end ProtoJS.ThreadPoolExecutor
