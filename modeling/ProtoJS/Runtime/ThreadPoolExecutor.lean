import ProtoJS.Machine.Run

/-! # The thread pool executor

One `ThreadPoolExecutor` with its workers and any number of calls made on it by other threads.
An action is one atomic step: a whole region under `queueMutex` where nothing can come between,
else the evaluation of a wait predicate, the release-and-block that follows it, each change of
`activeCount`, and each notification, which wakes only threads already blocked. A `submit` call
and the task it makes carry the same number. The log of what happened to each task is kept
beside the members of the class and is read by no step.
-/

namespace ProtoJS.ThreadPoolExecutor

/-- Where a worker stands in `workerThread`. -/
inductive WorkerPc (numCalls : ℕ) where
  /-- Before `condition.wait`, or woken in it: the lock is to be taken and the predicate evaluated. -/
  | waiting
  /-- The predicate was false; the lock is still held. -/
  | mustBlock
  | blocked
  /-- The predicate was true; the lock is still held. -/
  | admitted
  /-- The front of the queue was moved out; the lock is still held. -/
  | taken (task : Fin numCalls)
  | running (task : Fin numCalls)
  /-- The task has returned or thrown; `activeCount--` comes next. -/
  | finished
  /-- `condition.notify_all()` at the end of the loop body comes next. -/
  | notifying
  | exited
deriving DecidableEq, Repr

/-- Where a call of `submit`, `shutdown` or `shutdownNow` stands. -/
inductive CallPc where
  | idle
  | submitLocking
  | submitNotifying
  | submitReturned
  | submitThrew
  | shutdownLocking
  | shutdownNotifying
  | shutdownWaiting
  | shutdownMustBlock
  | shutdownBlocked
  | shutdownJoining
  | shutdownReturned
  | shutdownNowLocking
  | shutdownNowNotifying
  | shutdownNowJoining
  | shutdownNowReturned
deriving DecidableEq, Repr

inductive Thread (numThreads numCalls : ℕ) where
  | worker (i : Fin numThreads)
  | call (c : Fin numCalls)
deriving DecidableEq, Repr

/-- What happened to the tasks, in the order in which it happened. -/
structure Log (numThreads numCalls : ℕ) where
  pushed : List (Fin numCalls) := []
  dequeued : List (Fin numCalls × Fin numThreads) := []
  discarded : List (Fin numCalls) := []
  started : List (Fin numCalls × Fin numThreads) := []
  executed : List (Fin numCalls × Fin numThreads) := []
  /-- The tasks whose exception was reported on the error stream. -/
  reported : List (Fin numCalls) := []
deriving DecidableEq, Repr

structure State (numThreads numCalls : ℕ) where
  taskQueue : List (Fin numCalls) := []
  shutdownFlag : Bool := false
  shutdownNowFlag : Bool := false
  activeCount : ℕ := 0
  /-- The thread that holds `queueMutex` between two steps. -/
  queueMutex : Option (Thread numThreads numCalls) := none
  worker : Fin numThreads → WorkerPc numCalls := fun _ => .waiting
  call : Fin numCalls → CallPc := fun _ => .idle
  log : Log numThreads numCalls := {}

/-- The constructor: no pool without workers, else all of them about to wait. -/
def construct (numThreads numCalls : ℕ) : Option (State numThreads numCalls) :=
  if numThreads = 0 then none else some {}

variable {numThreads numCalls : ℕ}

def WorkerPc.wake : WorkerPc numCalls → WorkerPc numCalls
  | .blocked => .waiting
  | pc => pc

def CallPc.wake : CallPc → CallPc
  | .shutdownBlocked => .shutdownWaiting
  | pc => pc

namespace State

variable (s : State numThreads numCalls)

/-- The wait predicate of a worker. -/
def workAvailable : Bool := !s.taskQueue.isEmpty || s.shutdownFlag

/-- The exit test of a worker, made right after the wait and under the same lock. -/
def exitTest : Bool := s.shutdownFlag && (s.taskQueue.isEmpty || s.shutdownNowFlag)

/-- The wait predicate of `shutdown`. -/
def drained : Bool := s.taskQueue.isEmpty && s.activeCount == 0

/-- Blocked in `condition.wait` and not notified. -/
def IsBlocked : Thread numThreads numCalls → Prop
  | .worker i => s.worker i = .blocked
  | .call c => s.call c = .shutdownBlocked

instance : DecidablePred s.IsBlocked
  | .worker i => inferInstanceAs (Decidable (s.worker i = .blocked))
  | .call c => inferInstanceAs (Decidable (s.call c = .shutdownBlocked))

def setWorker (i : Fin numThreads) (pc : WorkerPc numCalls) : State numThreads numCalls :=
  { s with worker := Function.update s.worker i pc }

def setCall (c : Fin numCalls) (pc : CallPc) : State numThreads numCalls :=
  { s with call := Function.update s.call c pc }

/-- `condition.notify_all()`. -/
def notifyAll : State numThreads numCalls :=
  { s with worker := fun i => (s.worker i).wake, call := fun c => (s.call c).wake }

/-- The effect of `condition.notify_one()` once the scheduler has picked the waiter. -/
def wake : Thread numThreads numCalls → State numThreads numCalls
  | .worker i => s.setWorker i (s.worker i).wake
  | .call c => s.setCall c (s.call c).wake

end State

/-- The three public operations. -/
inductive Operation where
  | submit
  | shutdown
  | shutdownNow
deriving DecidableEq, Repr

def Operation.entry : Operation → CallPc
  | .submit => .submitLocking
  | .shutdown => .shutdownLocking
  | .shutdownNow => .shutdownNowLocking

/-- The steps of `workerThread`. -/
inductive WorkerStep (numCalls : ℕ) where
  /-- Take the lock and evaluate the wait predicate. -/
  | evaluate
  | block
  | wakeSpuriously
  /-- `break`: the lock is released and the worker is gone. -/
  | exit
  /-- Move the front of the queue out. -/
  | take (task : Fin numCalls)
  /-- Past the exit test with nothing to move out. -/
  | skip
  /-- `activeCount++`, release the lock and enter the task. -/
  | activate (task : Fin numCalls)
  /-- The task returns, or throws and is caught. -/
  | finish (task : Fin numCalls) (threw : Bool)
  /-- `activeCount--`. -/
  | deactivate
  /-- `condition.notify_all()` at the end of the loop body. -/
  | notifyAll
deriving DecidableEq, Repr

/-- The steps of the three public operations. -/
inductive CallStep (numThreads numCalls : ℕ) where
  | begin (operation : Operation)
  /-- The locked region of `submit`. -/
  | push
  /-- `notify_one` of `submit`, waking one blocked thread if there is one. -/
  | notifyOne (target : Option (Thread numThreads numCalls))
  /-- The first locked region of `shutdown`. -/
  | close
  /-- The locked region of `shutdownNow`. -/
  | closeNow
  /-- `notify_all` of `shutdown` or `shutdownNow`. -/
  | announce
  /-- Take the lock and evaluate the wait predicate of `shutdown`. -/
  | evaluate
  | block
  | wakeSpuriously
  /-- All workers have been joined. -/
  | join
deriving DecidableEq, Repr

inductive Action (numThreads numCalls : ℕ) where
  | worker (i : Fin numThreads) (step : WorkerStep numCalls)
  | call (c : Fin numCalls) (step : CallStep numThreads numCalls)
deriving DecidableEq, Repr

section Worker

variable (s : State numThreads numCalls) (i : Fin numThreads)

def WorkerEnabled : WorkerStep numCalls → Prop
  | .evaluate => s.worker i = .waiting ∧ s.queueMutex = none
  | .block => s.worker i = .mustBlock
  | .wakeSpuriously => s.worker i = .blocked
  | .exit => s.worker i = .admitted ∧ s.exitTest = true
  | .take task => s.worker i = .admitted ∧ s.exitTest = false ∧ s.taskQueue.head? = some task
  | .skip => s.worker i = .admitted ∧ s.exitTest = false ∧ s.taskQueue = []
  | .activate task => s.worker i = .taken task
  | .finish task _ => s.worker i = .running task
  | .deactivate => s.worker i = .finished
  | .notifyAll => s.worker i = .notifying

instance : DecidablePred (WorkerEnabled s i)
  | .evaluate | .exit => inferInstanceAs (Decidable (_ ∧ _))
  | .take _ | .skip => inferInstanceAs (Decidable (_ ∧ _ ∧ _))
  | .block | .wakeSpuriously | .activate _ | .finish _ _ | .deactivate | .notifyAll =>
    inferInstanceAs (Decidable (s.worker i = _))

/-- One step of `workerThread`. -/
def workerNext : WorkerStep numCalls → State numThreads numCalls
  | .evaluate =>
    { s.setWorker i (if s.workAvailable then .admitted else .mustBlock) with
      queueMutex := some (.worker i) }
  | .block => { s.setWorker i .blocked with queueMutex := none }
  | .wakeSpuriously => s.setWorker i .waiting
  | .exit => { s.setWorker i .exited with queueMutex := none }
  | .take task =>
    { s.setWorker i (.taken task) with
      taskQueue := s.taskQueue.tail
      log := { s.log with dequeued := s.log.dequeued ++ [(task, i)] } }
  | .skip => { s.setWorker i .notifying with queueMutex := none }
  | .activate task =>
    { s.setWorker i (.running task) with
      activeCount := s.activeCount + 1
      queueMutex := none
      log := { s.log with started := s.log.started ++ [(task, i)] } }
  | .finish task threw =>
    { s.setWorker i .finished with
      log := { s.log with
        executed := s.log.executed ++ [(task, i)]
        reported := if threw then s.log.reported ++ [task] else s.log.reported } }
  | .deactivate => { s.setWorker i .notifying with activeCount := s.activeCount - 1 }
  | .notifyAll => s.notifyAll.setWorker i .waiting

end Worker

section Call

variable (s : State numThreads numCalls) (c : Fin numCalls)

def CallEnabled : CallStep numThreads numCalls → Prop
  | .begin _ => s.call c = .idle
  | .push => s.call c = .submitLocking ∧ s.queueMutex = none
  | .notifyOne (some t) => s.call c = .submitNotifying ∧ s.IsBlocked t
  | .notifyOne none => s.call c = .submitNotifying ∧
      (∀ i, ¬s.IsBlocked (.worker i)) ∧ ∀ d, ¬s.IsBlocked (.call d)
  | .close => s.call c = .shutdownLocking ∧ s.queueMutex = none
  | .closeNow => s.call c = .shutdownNowLocking ∧ s.queueMutex = none
  | .announce => s.call c = .shutdownNotifying ∨ s.call c = .shutdownNowNotifying
  | .evaluate => s.call c = .shutdownWaiting ∧ s.queueMutex = none
  | .block => s.call c = .shutdownMustBlock
  | .wakeSpuriously => s.call c = .shutdownBlocked
  | .join => (s.call c = .shutdownJoining ∨ s.call c = .shutdownNowJoining) ∧
      ∀ i, s.worker i = .exited

instance : DecidablePred (CallEnabled s c)
  | .begin _ | .block | .wakeSpuriously => inferInstanceAs (Decidable (s.call c = _))
  | .push | .notifyOne (some _) | .close | .closeNow | .evaluate =>
    inferInstanceAs (Decidable (_ ∧ _))
  | .notifyOne none => inferInstanceAs (Decidable (_ ∧ _ ∧ _))
  | .announce => inferInstanceAs (Decidable (_ ∨ _))
  | .join => inferInstanceAs (Decidable ((_ ∨ _) ∧ _))

/-- One step of `submit`, `shutdown` or `shutdownNow`. -/
def callNext : CallStep numThreads numCalls → State numThreads numCalls
  | .begin operation => s.setCall c operation.entry
  | .push =>
    if s.shutdownFlag then s.setCall c .submitThrew
    else
      { s.setCall c .submitNotifying with
        taskQueue := s.taskQueue ++ [c]
        log := { s.log with pushed := s.log.pushed ++ [c] } }
  | .notifyOne (some t) => (s.wake t).setCall c .submitReturned
  | .notifyOne none => s.setCall c .submitReturned
  | .close => { s.setCall c .shutdownNotifying with shutdownFlag := true }
  | .closeNow =>
    { s.setCall c .shutdownNowNotifying with
      shutdownNowFlag := true
      shutdownFlag := true
      taskQueue := []
      log := { s.log with discarded := s.log.discarded ++ s.taskQueue } }
  | .announce =>
    s.notifyAll.setCall c
      (if s.call c = .shutdownNotifying then .shutdownWaiting else .shutdownNowJoining)
  | .evaluate =>
    if s.drained then s.setCall c .shutdownJoining
    else { s.setCall c .shutdownMustBlock with queueMutex := some (.call c) }
  | .block => { s.setCall c .shutdownBlocked with queueMutex := none }
  | .wakeSpuriously => s.setCall c .shutdownWaiting
  | .join => s.setCall c
      (if s.call c = .shutdownJoining then .shutdownReturned else .shutdownNowReturned)

end Call

/-- The executor with all its workers about to wait and no call made yet. -/
def executor (numThreads numCalls : ℕ) :
    Machine (State numThreads numCalls) (Action numThreads numCalls) where
  initial := {}
  Enabled s
    | .worker i step => WorkerEnabled s i step
    | .call c step => CallEnabled s c step
  next s
    | .worker i step => workerNext s i step
    | .call c step => callNext s c step

instance (s : State numThreads numCalls) (a : Action numThreads numCalls) :
    Decidable ((executor numThreads numCalls).Enabled s a) :=
  match a with
  | .worker i step => inferInstanceAs (Decidable (WorkerEnabled s i step))
  | .call c step => inferInstanceAs (Decidable (CallEnabled s c step))

/-- A constructed pool starts in the initial state of the executor. -/
theorem construct_eq_some {s : State numThreads numCalls}
    (constructed : construct numThreads numCalls = some s) :
    0 < numThreads ∧ s = (executor numThreads numCalls).initial := by
  unfold construct at constructed
  split at constructed
  · contradiction
  · exact ⟨by omega, (Option.some.inj constructed).symm⟩

end ProtoJS.ThreadPoolExecutor
