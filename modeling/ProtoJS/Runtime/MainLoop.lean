import ProtoJS.Runtime.ThreadPoolExecutor
import ProtoJS.Runtime.EventLoop
import ProtoJS.Runtime.Deferred

/-! # The end of the program

`main` evaluates the script, which submits tasks to the CPU pool, and then drains the event loop:
it processes callbacks while the queue is not empty, and once more after that. The workers of the
pool run `workerThreadExecution` meanwhile, and callbacks of other modules may be enqueued at any
time. The loop sees the queue alone, and a task that is still with its worker is in no queue. What
has been executed when `main` is past its final call of `processCallbacks` is exactly what had
been enqueued when that call swapped the queue out.
-/

namespace ProtoJS.MainLoop

open Deferred

/-- The tasks a script may submit, one for each call of `submit`, with what their runs answer. -/
structure Script (ω ν φ : Type*) (numCalls : ℕ) where
  task : Fin numCalls → DeferredTask ν φ
  answers : Fin numCalls → Answers ω ν

/-- The callbacks the worker enqueues for a task. -/
def Script.callbacks {ω ν φ : Type*} {numCalls : ℕ} (script : Script ω ν φ numCalls)
    (c : Fin numCalls) : List Callback :=
  (workerThreadExecution (script.answers c) (script.task c)).2

/-- A callback in the event loop's queue. -/
inductive Posting (numCalls : ℕ) where
  /-- The callback of that index among those of the task. -/
  | deferred (c : Fin numCalls) (index : ℕ)
  /-- A callback of another module. -/
  | other (n : ℕ)
deriving DecidableEq, Repr

/-- Where the main thread stands in `main`. -/
inductive MainPc (numCalls : ℕ) where
  /-- In `wrapper.eval`, outside of any `submit`. -/
  | evaluating
  | submitting (c : Fin numCalls)
  /-- At the condition of the loop. -/
  | checking
  /-- At a call of `processCallbacks`: that of the loop, or the final one. -/
  | entering (final : Bool)
  | processing (final : Bool)
  /-- In `sleep_for`; the check of the timeout comes next. -/
  | sleeping
  /-- Past the final call of `processCallbacks`. -/
  | passed
deriving DecidableEq, Repr

structure State (numThreads numCalls : ℕ) where
  pool : ThreadPoolExecutor.State numThreads numCalls := {}
  loop : EventLoop.State (Posting numCalls) := {}
  /-- How many of its callbacks a task has enqueued. -/
  posted : Fin numCalls → ℕ := fun _ => 0
  main : MainPc numCalls := .evaluating
  timedOut : Bool := false

inductive Action (numThreads numCalls : ℕ) where
  /-- The script constructs a `Deferred`. -/
  | beginSubmit (c : Fin numCalls)
  | submit (c : Fin numCalls) (step : ThreadPoolExecutor.CallStep numThreads numCalls)
  | finishScript
  | worker (i : Fin numThreads) (step : ThreadPoolExecutor.WorkerStep numCalls)
  /-- A worker enqueues the next callback of the task it is running. -/
  | post (i : Fin numThreads) (c : Fin numCalls)
  | enqueueOther (n : ℕ)
  /-- `hasPendingCallbacks`. -/
  | check
  /-- `processCallbacks` swaps the queue out. -/
  | swap
  | call
  | finishCallback (threw : Bool)
  /-- `processCallbacks` returns. -/
  | leave
  /-- The timeout is checked. -/
  | checkTimeout (expired : Bool)
deriving DecidableEq, Repr

variable {ω ν φ : Type*} {numThreads numCalls : ℕ}

/-- The steps of `submit` after its beginning. -/
def IsSubmitStep : ThreadPoolExecutor.CallStep numThreads numCalls → Prop
  | .push | .notifyOne _ => True
  | _ => False

instance : DecidablePred (@IsSubmitStep numThreads numCalls)
  | .push | .notifyOne _ => inferInstanceAs (Decidable True)
  | .begin _ | .close | .closeNow | .announce | .evaluate | .block | .wakeSpuriously | .join =>
    inferInstanceAs (Decidable False)

/-- A task returns when all of its callbacks are enqueued; `workerThreadExecution` throws nothing. -/
def MayReturn (script : Script ω ν φ numCalls) (s : State numThreads numCalls) :
    ThreadPoolExecutor.WorkerStep numCalls → Prop
  | .finish c threw => s.posted c = (script.callbacks c).length ∧ threw = false
  | _ => True

instance (script : Script ω ν φ numCalls) (s : State numThreads numCalls) :
    DecidablePred (MayReturn script s)
  | .finish _ _ => inferInstanceAs (Decidable (_ ∧ _))
  | .evaluate | .block | .wakeSpuriously | .exit | .take _ | .skip | .activate _ | .deactivate
  | .notifyAll => inferInstanceAs (Decidable True)

def Enabled (script : Script ω ν φ numCalls) (s : State numThreads numCalls) :
    Action numThreads numCalls → Prop
  | .beginSubmit c =>
    s.main = .evaluating ∧ ThreadPoolExecutor.CallEnabled s.pool c (.begin .submit)
  | .submit c step =>
    s.main = .submitting c ∧ IsSubmitStep step ∧ ThreadPoolExecutor.CallEnabled s.pool c step
  | .finishScript => s.main = .evaluating
  | .worker i step => ThreadPoolExecutor.WorkerEnabled s.pool i step ∧ MayReturn script s step
  | .post i c => s.pool.worker i = .running c ∧ s.posted c < (script.callbacks c).length
  | .enqueueOther n => EventLoop.Enabled s.loop (.enqueueCallback (.other n))
  | .check => s.main = .checking
  | .swap => (s.main = .entering false ∨ s.main = .entering true) ∧
      EventLoop.Enabled s.loop .processCallbacks
  | .call => EventLoop.Enabled s.loop .call
  | .finishCallback threw => EventLoop.Enabled s.loop (.finish threw)
  | .leave => (s.main = .processing false ∨ s.main = .processing true) ∧
      EventLoop.Enabled s.loop .leave
  | .checkTimeout _ => s.main = .sleeping

instance (script : Script ω ν φ numCalls) (s : State numThreads numCalls) :
    DecidablePred (Enabled script s)
  | .beginSubmit _ | .worker _ _ | .post _ _ => inferInstanceAs (Decidable (_ ∧ _))
  | .submit _ _ => inferInstanceAs (Decidable (_ ∧ _ ∧ _))
  | .finishScript | .check | .checkTimeout _ => inferInstanceAs (Decidable (s.main = _))
  | .enqueueOther n =>
    inferInstanceAs (Decidable (EventLoop.Enabled s.loop (.enqueueCallback (.other n))))
  | .call => inferInstanceAs (Decidable (EventLoop.Enabled s.loop .call))
  | .finishCallback threw => inferInstanceAs (Decidable (EventLoop.Enabled s.loop (.finish threw)))
  | .swap | .leave => inferInstanceAs (Decidable ((_ ∨ _) ∧ _))

/-- `submit` has returned or thrown once its call is past the notification. -/
def afterSubmit (pool : ThreadPoolExecutor.State numThreads numCalls) (c : Fin numCalls) :
    MainPc numCalls :=
  if pool.call c = .submitNotifying then .submitting c else .evaluating

def next (s : State numThreads numCalls) : Action numThreads numCalls → State numThreads numCalls
  | .beginSubmit c =>
    { s with
      pool := ThreadPoolExecutor.callNext s.pool c (.begin .submit)
      main := .submitting c }
  | .submit c step =>
    let pool := ThreadPoolExecutor.callNext s.pool c step
    { s with pool := pool, main := afterSubmit pool c }
  | .finishScript => { s with main := .checking }
  | .worker i step => { s with pool := ThreadPoolExecutor.workerNext s.pool i step }
  | .post _ c =>
    { s with
      loop := EventLoop.next s.loop (.enqueueCallback (.deferred c (s.posted c)))
      posted := Function.update s.posted c (s.posted c + 1) }
  | .enqueueOther n => { s with loop := EventLoop.next s.loop (.enqueueCallback (.other n)) }
  | .check => { s with main := .entering !s.loop.hasPendingCallbacks }
  | .swap =>
    { s with
      loop := EventLoop.next s.loop .processCallbacks
      main := .processing (s.main = .entering true) }
  | .call => { s with loop := EventLoop.next s.loop .call }
  | .finishCallback threw => { s with loop := EventLoop.next s.loop (.finish threw) }
  | .leave =>
    { s with
      loop := EventLoop.next s.loop .leave
      main := if s.main = .processing true then .passed else .sleeping }
  | .checkTimeout expired =>
    if expired then { s with main := .entering true, timedOut := true }
    else { s with main := .checking }

/-- The program from the beginning of the script's evaluation on. -/
def program (numThreads : ℕ) (script : Script ω ν φ numCalls) :
    Machine (State numThreads numCalls) (Action numThreads numCalls) where
  initial := {}
  Enabled := Enabled script
  next := next

instance (script : Script ω ν φ numCalls) (s : State numThreads numCalls)
    (a : Action numThreads numCalls) : Decidable ((program numThreads script).Enabled s a) :=
  inferInstanceAs (Decidable (Enabled script s a))

end ProtoJS.MainLoop
