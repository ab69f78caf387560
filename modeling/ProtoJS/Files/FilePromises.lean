import ProtoJS.Files.FileOperations
import ProtoJS.Runtime.MainLoop

/-! # The program with its file operations

The script, and the callbacks of other modules, start file operations from the main thread: one
`submit` to the I/O pool each, followed by `enqueueCallback` or by a blocking `get` of the future.
The workers of the I/O pool run the tasks meanwhile. Everything else is `main` with its event loop
and the CPU pool, as in `MainLoop`; a callback whose number is below the number of calls is that
of the call with this number. A callback of a file operation returns no sooner than its future is
there.
-/

namespace ProtoJS.FilePromises

open Files Strings MainLoop

/-- What the JavaScript code that the main thread runs is doing. -/
inductive ScriptPc (numCalls : ℕ) where
  /-- Between two calls of a file operation. -/
  | running
  | submitting (c : Fin numCalls)
  /-- `submit` has returned the future, `enqueueCallback` comes next. -/
  | enqueuing (c : Fin numCalls)
  /-- In `get` of the future of a blocking call. -/
  | waiting (c : Fin numCalls)
deriving DecidableEq, Repr

structure State (numWorkers numDeferred numThreads numCalls : ℕ) where
  /-- `main`, the event loop and the CPU pool. -/
  runtime : MainLoop.State numWorkers numDeferred := {}
  ioPool : ThreadPoolExecutor.State numThreads numCalls := {}
  future : Fin numCalls → Option Outcome := fun _ => none
  script : ScriptPc numCalls := .running
  /-- What the callbacks have done, in order. -/
  settled : List (Fin numCalls × Settlement) := []
  /-- How the blocking calls have returned, in order. -/
  returned : List (Fin numCalls × Settlement) := []

inductive Action (numWorkers numDeferred numThreads numCalls : ℕ) where
  | beginCall (c : Fin numCalls)
  | submit (c : Fin numCalls) (step : ThreadPoolExecutor.CallStep numThreads numCalls)
  | enqueue (c : Fin numCalls)
  | get (c : Fin numCalls)
  | worker (i : Fin numThreads) (step : ThreadPoolExecutor.WorkerStep numCalls)
  /-- The packaged task makes its future ready and returns. -/
  | complete (i : Fin numThreads) (c : Fin numCalls) (outcome : Outcome)
  | runtime (action : MainLoop.Action numWorkers numDeferred)
deriving DecidableEq

variable {ω ν φ : Type*} {numWorkers numDeferred numThreads numCalls : ℕ}

/-- The call whose callback a posting is. -/
def call? (numCalls : ℕ) : Posting numDeferred → Option (Fin numCalls)
  | .other n => if below : n < numCalls then some ⟨n, below⟩ else none
  | .deferred _ _ => none

namespace State

variable (s : State numWorkers numDeferred numThreads numCalls)

/-- The callback that is running. -/
def called : Option (Posting numDeferred) :=
  match s.runtime.loop.main with
  | .calling callback _ => some callback
  | _ => none

/-- The main thread runs JavaScript code: the script, or a callback of another module. -/
def RunsScript : Prop :=
  s.runtime.main = .evaluating ∨ ∃ callback ∈ s.called, call? numCalls callback = none

instance : Decidable s.RunsScript :=
  match found : s.called with
  | some callback =>
    if other : call? numCalls callback = none then
      isTrue (.inr ⟨callback, found, other⟩)
    else
      decidable_of_iff (s.runtime.main = .evaluating) ⟨.inl, fun runs => runs.resolve_right (by
        rintro ⟨same, member, none⟩
        rw [found, Option.mem_some_iff] at member
        exact other (member ▸ none))⟩
  | none =>
    decidable_of_iff (s.runtime.main = .evaluating) ⟨.inl, fun runs => runs.resolve_right (by
      rintro ⟨_, member, _⟩
      rw [found] at member
      cases member)⟩

end State

/-- The worker's step is its return from a task. -/
def IsFinish : ThreadPoolExecutor.WorkerStep numCalls → Bool
  | .finish _ _ => true
  | _ => false

/-- A running callback returns, or throws, when its code lets it. -/
def MayReturn (s : State numWorkers numDeferred numThreads numCalls) (threw : Bool)
    (callback : Posting numDeferred) : Prop :=
  match call? numCalls callback with
  -- it waits in `get`, and catches what `get` throws
  | some c => (s.future c).isSome = true ∧ threw = false
  | none => s.script = .running

instance (s : State numWorkers numDeferred numThreads numCalls) (threw : Bool)
    (callback : Posting numDeferred) : Decidable (MayReturn s threw callback) := by
  unfold MayReturn
  split <;> infer_instance

/-- The steps of the rest of the program that the file operations do not hold up. -/
def Admits (s : State numWorkers numDeferred numThreads numCalls) :
    MainLoop.Action numWorkers numDeferred → Prop
  | .beginSubmit _ | .finishScript => s.script = .running
  | .enqueueOther n => numCalls ≤ n
  | .finishCallback threw => ∀ callback ∈ s.called, MayReturn s threw callback
  | _ => True

instance (s : State numWorkers numDeferred numThreads numCalls) : DecidablePred (Admits s)
  | .beginSubmit _ | .finishScript => inferInstanceAs (Decidable (s.script = .running))
  | .enqueueOther n => inferInstanceAs (Decidable (numCalls ≤ n))
  | .finishCallback threw =>
    inferInstanceAs (Decidable (∀ callback ∈ s.called, MayReturn s threw callback))
  | .submit _ _ | .worker _ _ | .post _ _ | .check | .swap | .call | .leave | .checkTimeout _ =>
    inferInstanceAs (Decidable True)

section Machine

variable (deferred : Script ω ν φ numDeferred) (operations : Fin numCalls → Operation)
  (decoder : Decoder)

def Enabled (s : State numWorkers numDeferred numThreads numCalls) :
    Action numWorkers numDeferred numThreads numCalls → Prop
  | .beginCall c => s.RunsScript ∧ s.script = .running ∧
      ThreadPoolExecutor.CallEnabled s.ioPool c (.begin .submit)
  | .submit c step => s.script = .submitting c ∧ IsSubmitStep step ∧
      ThreadPoolExecutor.CallEnabled s.ioPool c step
  | .enqueue c => s.script = .enqueuing c
  | .get c => s.script = .waiting c ∧ (s.future c).isSome = true
  | .worker i step => ThreadPoolExecutor.WorkerEnabled s.ioPool i step ∧ IsFinish step = false
  | .complete i c outcome => ThreadPoolExecutor.WorkerEnabled s.ioPool i (.finish c false) ∧
      (operations c).task.MayEnd outcome
  | .runtime action => MainLoop.Enabled deferred s.runtime action ∧ Admits s action

instance (s : State numWorkers numDeferred numThreads numCalls) :
    DecidablePred (Enabled deferred operations s)
  | .beginCall _ | .submit _ _ => inferInstanceAs (Decidable (_ ∧ _ ∧ _))
  | .enqueue _ => inferInstanceAs (Decidable (s.script = _))
  | .get _ | .worker _ _ | .complete _ _ _ | .runtime _ => inferInstanceAs (Decidable (_ ∧ _))

/-- Where `submit` leaves the script. -/
def afterSubmit (pool : ThreadPoolExecutor.State numThreads numCalls) (c : Fin numCalls) :
    ScriptPc numCalls :=
  match pool.call c with
  | .submitReturned => if (operations c).isAsync then .enqueuing c else .waiting c
  | .submitThrew => .running
  | _ => .submitting c

/-- What is done with the outcome of a call, if it is there. -/
def settlement (s : State numWorkers numDeferred numThreads numCalls) (c : Fin numCalls) :
    List (Fin numCalls × Settlement) :=
  match s.future c with
  | some outcome => [(c, (operations c).settle decoder outcome)]
  | none => []

/-- What the running callback does, if it is that of a file operation. -/
def callbackSettlement (s : State numWorkers numDeferred numThreads numCalls) :
    List (Fin numCalls × Settlement) :=
  match s.called.bind (call? numCalls) with
  | some c => settlement operations decoder s c
  | none => []

def next (s : State numWorkers numDeferred numThreads numCalls) :
    Action numWorkers numDeferred numThreads numCalls →
      State numWorkers numDeferred numThreads numCalls
  | .beginCall c =>
    { s with
      ioPool := ThreadPoolExecutor.callNext s.ioPool c (.begin .submit)
      script := .submitting c }
  | .submit c step =>
    let pool := ThreadPoolExecutor.callNext s.ioPool c step
    { s with ioPool := pool, script := afterSubmit operations pool c }
  | .enqueue c =>
    { s with runtime := MainLoop.next s.runtime (.enqueueOther c), script := .running }
  | .get c =>
    { s with script := .running, returned := s.returned ++ settlement operations decoder s c }
  | .worker i step => { s with ioPool := ThreadPoolExecutor.workerNext s.ioPool i step }
  | .complete i c outcome =>
    { s with
      ioPool := ThreadPoolExecutor.workerNext s.ioPool i (.finish c false)
      future := Function.update s.future c (some outcome) }
  | .runtime (.finishCallback threw) =>
    { s with
      runtime := MainLoop.next s.runtime (.finishCallback threw)
      settled := s.settled ++ callbackSettlement operations decoder s }
  | .runtime action => { s with runtime := MainLoop.next s.runtime action }

/-- The program from the beginning of the script's evaluation on. -/
def program (numWorkers numThreads : ℕ) :
    Machine (State numWorkers numDeferred numThreads numCalls)
      (Action numWorkers numDeferred numThreads numCalls) where
  initial := {}
  Enabled := Enabled deferred operations
  next := next operations decoder

instance (s : State numWorkers numDeferred numThreads numCalls)
    (a : Action numWorkers numDeferred numThreads numCalls) :
    Decidable ((program deferred operations decoder numWorkers numThreads).Enabled s a) :=
  inferInstanceAs (Decidable (Enabled deferred operations s a))

end Machine

end ProtoJS.FilePromises
