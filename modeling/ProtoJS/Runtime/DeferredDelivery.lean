import ProtoJS.Machine.Run
import ProtoJS.Runtime.DeferredSettlement

/-! # What a script hears of a deferred task

The constructor hands one task record to the worker and keeps a copy of it behind the JavaScript
object. `then` and `catch` read and write the copy. The `resolve` and `reject` functions that the
completion callback calls only return `undefined`, so neither record is ever marked as settled:
every outcome is delivered to `resolve` or `reject` once, and never to a registered callback.
-/

namespace ProtoJS.Deferred

variable {ω ν φ : Type*}

def Argument.isUndefined : Argument ν → Bool
  | .undefined => true
  | _ => false

/-- One `Deferred` of a script. -/
structure State (ν φ : Type*) where
  /-- The record shared with the worker and its callbacks. -/
  task : DeferredTask ν φ
  /-- The copy behind the JavaScript object. -/
  taskPtr : DeferredTask ν φ
  executed : Bool := false
  callbackQueue : List Callback := []
  /-- The callbacks the event loop has run. -/
  processed : List Callback := []
  /-- The calls of the task's `resolve` and `reject`. -/
  settled : List (Settlement ν) := []
  /-- The functions registered with `then`, and those registered with `catch`. -/
  thens : List φ := []
  catches : List φ := []
  /-- The calls of registered functions. -/
  calls : List (φ × Argument ν) := []
deriving DecidableEq

/-- What the calls of the constructor outside of the repository answer. -/
structure ConstructorAnswers (φ : Type*) where
  /-- `JS_NewObjectClass`; an exception comes with its text. -/
  newObject : Except String Unit
  hasWrapper : Bool
  /-- `JS_WriteObject` of the function, in the main context. -/
  writeFunction : φ → Option Buffer
  malloc : ℕ → Bool

/-- A `Deferred` right after its construction: two equal records, and the task submitted. -/
def created (serializedFunc : Buffer) : State ν φ where
  task := { serializedFunc := serializedFunc }
  taskPtr := { serializedFunc := serializedFunc }

/-- `Deferred::constructor`; the argument is `none` when it is missing or no function. -/
def constructor (answers : ConstructorAnswers φ) (argument : Option φ) :
    Except String (State ν φ) :=
  match argument with
  | none => .error "Deferred expects a function"
  | some f =>
    match answers.newObject with
    | .error text => .error text
    | .ok () =>
      if ¬answers.hasWrapper then .error "Deferred: JSContextWrapper not found"
      else
        match usable (answers.writeFunction f) with
        | none => .error ("Deferred: Function not serializable. " ++
            "Functions with complex closures may not be supported.")
        | some serializedFunc =>
          if ¬answers.malloc serializedFunc.length then
            .error "Deferred: Failed to allocate memory for serialized function"
          else .ok (created serializedFunc)

/-- What `then` and `catch` have in common: the record afterwards and the call made at once. -/
def register (expectation : String) (store : DeferredTask ν φ → φ → DeferredTask ν φ)
    (isSettled : DeferredTask ν φ → Bool) (payload : DeferredTask ν φ → Argument ν)
    (task : Option (DeferredTask ν φ)) (argument : Option φ) :
    Except String (DeferredTask ν φ × List (φ × Argument ν)) :=
  match argument with
  | none => .error expectation
  | some f =>
    match task with
    | none => .error "Invalid Deferred object"
    | some task =>
      let stored := store task f
      .ok (stored,
        if isSettled stored && !(payload stored).isUndefined then [(f, payload stored)] else [])

/-- `Deferred::then`. -/
def then_ : Option (DeferredTask ν φ) → Option φ →
    Except String (DeferredTask ν φ × List (φ × Argument ν)) :=
  register "then expects a function" (fun task f => { task with thenCallback := some f })
    DeferredTask.isResolved DeferredTask.result

/-- `Deferred::catch_`. -/
def catch_ : Option (DeferredTask ν φ) → Option φ →
    Except String (DeferredTask ν φ × List (φ × Argument ν)) :=
  register "catch expects a function" (fun task f => { task with catchCallback := some f })
    DeferredTask.isRejected DeferredTask.error

/-- What can happen to one `Deferred`. -/
inductive Action (φ : Type*) where
  | workerThreadExecution
  /-- The event loop runs the task's next callback. -/
  | processCallback
  | then_ (argument : Option φ)
  | catch_ (argument : Option φ)
deriving DecidableEq

def Enabled (s : State ν φ) : Action φ → Prop
  | .workerThreadExecution => s.executed = false
  | .processCallback => s.callbackQueue ≠ []
  | .then_ _ | .catch_ _ => True

instance (s : State ν φ) : DecidablePred (Enabled s)
  | .workerThreadExecution => inferInstanceAs (Decidable (s.executed = false))
  | .processCallback => match found : s.callbackQueue with
    | [] => isFalse (by simp [Enabled, found])
    | _ :: _ => isTrue (by simp [Enabled, found])
  | .then_ _ | .catch_ _ => inferInstanceAs (Decidable True)

def next (answers : Answers ω ν) (s : State ν φ) : Action φ → State ν φ
  | .workerThreadExecution =>
    let (task, enqueued) := workerThreadExecution answers s.task
    { s with task := task, callbackQueue := s.callbackQueue ++ enqueued, executed := true }
  | .processCallback => match s.callbackQueue with
    | [] => s
    | callback :: rest =>
      -- `resolve` and `reject` of the constructor return `JS_UNDEFINED` and do nothing else
      let (task, settlement) := runCallback answers s.task callback
      { s with
        task := task
        callbackQueue := rest
        processed := s.processed ++ [callback]
        settled := s.settled ++ [settlement] }
  | .then_ argument => match Deferred.then_ (some s.taskPtr) argument with
    | .error _ => s
    | .ok (taskPtr, called) =>
      { s with taskPtr := taskPtr, thens := s.thens ++ argument.toList, calls := s.calls ++ called }
  | .catch_ argument => match Deferred.catch_ (some s.taskPtr) argument with
    | .error _ => s
    | .ok (taskPtr, called) =>
      { s with
        taskPtr := taskPtr
        catches := s.catches ++ argument.toList
        calls := s.calls ++ called }

/-- One `Deferred`, from its construction on. -/
def deferred (answers : Answers ω ν) (serializedFunc : Buffer) : Machine (State ν φ) (Action φ) where
  initial := created serializedFunc
  Enabled := Enabled
  next := next answers

instance (answers : Answers ω ν) (serializedFunc : Buffer) (s : State ν φ) (a : Action φ) :
    Decidable ((deferred answers serializedFunc).Enabled s a) :=
  inferInstanceAs (Decidable (Enabled s a))

/-- A construction that succeeds starts the machine of the serialized function. -/
theorem constructor_eq_ok {answers : ConstructorAnswers φ} {argument : Option φ} {s : State ν φ}
    (constructed : constructor answers argument = .ok s) (worker : Answers ω ν) :
    ∃ f, argument = some f ∧ ∃ serializedFunc, usable (answers.writeFunction f) = some serializedFunc ∧
      s = (deferred worker serializedFunc).initial := by
  cases argument with
  | none => cases constructed
  | some f =>
    unfold constructor at constructed
    cases made : answers.newObject with
    | error text => simp [made] at constructed
    | ok _ =>
      simp only [made] at constructed
      split_ifs at constructed
      cases written : usable (answers.writeFunction f) with
      | none => simp [written] at constructed
      | some serializedFunc =>
        simp only [written] at constructed
        split_ifs at constructed
        cases constructed
        exact ⟨f, rfl, serializedFunc, written, rfl⟩

section Registration

variable {expectation : String} (store : DeferredTask ν φ → φ → DeferredTask ν φ)
  {isSettled : DeferredTask ν φ → Bool} {payload : DeferredTask ν φ → Argument ν}
  {task : DeferredTask ν φ} {f : φ}

/-- Registering on a record that is not settled calls nothing. -/
theorem register_of_unsettled (pending : isSettled (store task f) = false) :
    register expectation store isSettled payload (some task) (some f) = .ok (store task f, []) := by
  simp [register, pending]

/-- Registering on a settled record calls the function at once, unless the outcome is undefined. -/
theorem register_of_settled (settled : isSettled (store task f) = true)
    (outcome : (payload (store task f)).isUndefined = false) :
    register expectation store isSettled payload (some task) (some f) =
      .ok (store task f, [(f, payload (store task f))]) := by
  simp [register, settled, outcome]

theorem then_of_unsettled (pending : task.isResolved = false) :
    then_ (some task) (some f) = .ok ({ task with thenCallback := some f }, []) :=
  register_of_unsettled (fun task f => { task with thenCallback := some f }) pending

theorem catch_of_unsettled (pending : task.isRejected = false) :
    catch_ (some task) (some f) = .ok ({ task with catchCallback := some f }, []) :=
  register_of_unsettled (fun task f => { task with catchCallback := some f }) pending

end Registration

variable {answers : Answers ω ν} {serializedFunc : Buffer} {s : State ν φ} {a : Action φ}

/-- The copy behind the object is not settled, and no registered function has been called. -/
structure Inert (s : State ν φ) : Prop where
  isResolved : s.taskPtr.isResolved = false
  isRejected : s.taskPtr.isRejected = false
  calls : s.calls = []

private theorem Inert.next (inert : Inert s) : Inert (next answers s a) := by
  cases a with
  | workerThreadExecution => exact ⟨inert.isResolved, inert.isRejected, inert.calls⟩
  | processCallback =>
    unfold Deferred.next
    cases s.callbackQueue with
    | nil => exact inert
    | cons callback rest => exact ⟨inert.isResolved, inert.isRejected, inert.calls⟩
  | then_ argument =>
    cases argument with
    | none => exact inert
    | some f =>
      simp only [Deferred.next, then_of_unsettled inert.isResolved]
      exact ⟨inert.isResolved, inert.isRejected, by simp [inert.calls]⟩
  | catch_ argument =>
    cases argument with
    | none => exact inert
    | some f =>
      simp only [Deferred.next, catch_of_unsettled inert.isRejected]
      exact ⟨inert.isResolved, inert.isRejected, by simp [inert.calls]⟩

theorem inert_of_reachable (reachable : (deferred answers serializedFunc).Reachable s) : Inert s :=
  reachable.invariant ⟨rfl, rfl, rfl⟩ fun _ _ _ _ inert => inert.next

/-- The processed and the queued callbacks are those of the worker, and so are their calls. -/
structure Accounted (answers : Answers ω ν) (serializedFunc : Buffer) (s : State ν φ) : Prop where
  callbacks : s.processed ++ s.callbackQueue =
    if s.executed then
      (workerThreadExecution answers ({ serializedFunc := serializedFunc } : DeferredTask ν φ)).2
    else []
  calls : s.settled ++ (runCallbacks answers s.task s.callbackQueue).2 =
    if s.executed then
      settlements answers ({ serializedFunc := serializedFunc } : DeferredTask ν φ)
    else []
  task : s.executed = false → s.task = { serializedFunc := serializedFunc }

private theorem Accounted.next (accounted : Accounted answers serializedFunc s)
    (enabled : Enabled s a) : Accounted answers serializedFunc (next answers s a) := by
  cases a with
  | workerThreadExecution =>
    have idle : s.executed = false := enabled
    have callbacks := accounted.callbacks
    have calls := accounted.calls
    simp only [idle, Bool.false_eq_true, if_false, List.append_eq_nil_iff] at callbacks calls
    refine ⟨?_, ?_, fun executed => by cases executed⟩
    · simp [Deferred.next, callbacks, accounted.task idle]
    · simp [Deferred.next, callbacks, calls, accounted.task idle, settlements]
  | processCallback =>
    have callbacks := accounted.callbacks
    have calls := accounted.calls
    have task := accounted.task
    unfold Deferred.next
    cases queue : s.callbackQueue with
    | nil => exact accounted
    | cons callback rest =>
      rw [queue] at callbacks calls
      refine ⟨?_, ?_, ?_⟩
      · simpa using callbacks
      · simpa [runCallbacks] using calls
      · intro idle
        have idle' : s.executed = false := idle
        simp [idle'] at callbacks
  | then_ argument =>
    simp only [Deferred.next]
    split
    · exact accounted
    · exact ⟨accounted.callbacks, accounted.calls, accounted.task⟩
  | catch_ argument =>
    simp only [Deferred.next]
    split
    · exact accounted
    · exact ⟨accounted.callbacks, accounted.calls, accounted.task⟩

theorem accounted_of_reachable (reachable : (deferred answers serializedFunc).Reachable s) :
    Accounted answers serializedFunc s :=
  reachable.invariant ⟨rfl, rfl, fun _ => rfl⟩ fun _ _ _ enabled accounted => accounted.next enabled

/-- How a worker's computation can end. -/
inductive Outcome (ν : Type*) where
  | value (v : ν)
  | error (e : ν)
deriving DecidableEq, Repr

namespace Outcome

/-- The value or the error. -/
def payload : Outcome ν → ν
  | .value v => v
  | .error e => e

/-- The call of `resolve` or `reject` that hands the outcome over. -/
def settlement : Outcome ν → Settlement ν
  | .value v => .resolve (.value v)
  | .error e => .reject (.value e)

/-- What the worker's call of the function answers. -/
def called (object : ω) : Outcome ν → Except ω ω
  | .value _ => .ok object
  | .error _ => .error object

end Outcome

/-- The functions registered for an outcome of that kind. -/
def State.registered (s : State ν φ) : Outcome ν → List φ
  | .value _ => s.thens
  | .error _ => s.catches

/-- The worker's computation finishes with a serializable value or error, which the main context
reads back. -/
def Answers.Finishes (answers : Answers ω ν) (serializedFunc : Buffer) (outcome : Outcome ν) :
    Prop :=
  answers.Ready ∧ answers.readFunction serializedFunc = .ok () ∧
    (∃ object buffer, answers.callFunction = outcome.called object ∧
      usable (answers.writeObject object) = some buffer ∧ answers.malloc buffer.length ∧
      answers.readObject buffer = some outcome.payload) ∧
    answers.cppException .completion = none

section Finished

variable {outcome : Outcome ν} {task : DeferredTask ν φ}

private theorem length_pos_of_usable {object : Option Buffer} {buffer : Buffer}
    (there : usable object = some buffer) : buffer.length > 0 := by
  cases object with
  | none => cases there
  | some other =>
    simp only [usable] at there
    split_ifs at there with positive
    cases there
    exact positive

/-- A computation that finishes enqueues the completion callback alone. -/
theorem workerThreadExecution_of_finishes (finishes : answers.Finishes task.serializedFunc outcome) :
    (workerThreadExecution answers task).2 = [.completion] := by
  obtain ⟨ready, read, ⟨object, buffer, called, written, allocated, _⟩, quiet⟩ := finishes
  rw [workerThreadExecution_of_ready ready]
  cases outcome <;>
    simp [executeInContext, read, called, Outcome.called, written, allocated, scheduleCompletion,
      guarded, quiet]

/-- The completion callback hands the outcome to `resolve` or `reject`. -/
theorem settlements_of_finishes (finishes : answers.Finishes task.serializedFunc outcome) :
    settlements answers task = [outcome.settlement] := by
  obtain ⟨ready, read, ⟨object, buffer, called, written, allocated, back⟩, quiet⟩ := finishes
  have positive := length_pos_of_usable written
  unfold settlements
  rw [workerThreadExecution_of_ready ready]
  cases outcome with
  | value v =>
    have back' : answers.readObject buffer = some v := back
    simp [executeInContext, read, called, Outcome.called, written, allocated, scheduleCompletion,
      guarded, quiet, runCallbacks, runCallback, DeferredTask.resultBuffer, positive, back',
      Outcome.settlement]
  | error e =>
    have back' : answers.readObject buffer = some e := back
    simp [executeInContext, read, called, Outcome.called, written, allocated, scheduleCompletion,
      guarded, quiet, runCallbacks, runCallback, DeferredTask.resultBuffer, positive, back',
      Outcome.settlement]

end Finished

variable {outcome : Outcome ν} {f : φ}

/-- Once the completion callback has run, the outcome has been handed to `resolve` or `reject`. -/
theorem settled_of_processed (reachable : (deferred answers serializedFunc).Reachable s)
    (finishes : answers.Finishes serializedFunc outcome) (processed : .completion ∈ s.processed) :
    s.settled = [outcome.settlement] := by
  have accounted := accounted_of_reachable reachable
  have callbacks := accounted.callbacks
  have calls := accounted.calls
  cases executed : s.executed with
  | false =>
    simp only [executed, Bool.false_eq_true, if_false, List.append_eq_nil_iff] at callbacks
    rw [callbacks.1] at processed
    cases processed
  | true =>
    rw [executed, if_pos rfl, workerThreadExecution_of_finishes finishes] at callbacks
    rw [executed, if_pos rfl, settlements_of_finishes finishes] at calls
    have drained : s.callbackQueue = [] := by
      rcases List.append_eq_singleton_iff.mp callbacks with ⟨none, _⟩ | ⟨_, empty⟩
      · rw [none] at processed
        cases processed
      · exact empty
    rwa [drained, runCallbacks, List.append_nil] at calls

/-- Once the completion callback has run, a registered function has been called with the outcome,
once. -/
def Delivered [DecidableEq ν] [DecidableEq φ] (s : State ν φ) (outcome : Outcome ν) (f : φ) : Prop :=
  .completion ∈ s.processed → f ∈ s.registered outcome →
    s.calls.count (f, .value outcome.payload) = 1

/-- However registration, execution and completion are ordered, no registered function hears of
the outcome, although the completion callback hands it to `resolve` or `reject`: nothing is
delivered as soon as there is something to deliver. -/
theorem delivered_iff [DecidableEq ν] [DecidableEq φ]
    (reachable : (deferred answers serializedFunc).Reachable s)
    (finishes : answers.Finishes serializedFunc outcome) :
    (.completion ∈ s.processed → s.settled = [outcome.settlement]) ∧
      (Delivered s outcome f ↔ ¬(.completion ∈ s.processed ∧ f ∈ s.registered outcome)) := by
  have unheard : s.calls.count (f, .value outcome.payload) ≠ 1 := by
    rw [(inert_of_reachable reachable).calls]
    simp
  refine ⟨settled_of_processed reachable finishes, ?_, ?_⟩
  · rintro delivered ⟨processed, registered⟩
    exact unheard (delivered processed registered)
  · intro absent processed registered
    exact absurd ⟨processed, registered⟩ absent

/-- A function that returns 42. -/
def fortyTwo : Answers Unit ℕ where
  hasContext := true
  newRuntime := true
  newContext := true
  readFunction _ := .ok ()
  callFunction := .ok ()
  writeObject _ := some [42]
  malloc _ := true
  readObject buffer := buffer.head?.map UInt8.toNat
  cppException _ := none

theorem fortyTwo_finishes (serializedFunc : Buffer) :
    fortyTwo.Finishes serializedFunc (.value 42) :=
  ⟨.inl rfl, rfl, ⟨(), [42], rfl, rfl, rfl, rfl⟩, rfl⟩

/-- A function registered after execution and completion. -/
theorem delivered_iff_late :
    ∃ s : State ℕ Unit, (.completion ∈ s.processed ∧ () ∈ s.registered (.value 42)) ∧
      (.completion ∈ s.processed → s.settled = [.resolve (.value 42)]) ∧
      (Delivered s (.value 42) () ↔
        ¬(.completion ∈ s.processed ∧ () ∈ s.registered (.value 42))) := by
  have found : ∃ s : State ℕ Unit, (deferred fortyTwo [1]).Run (created [1])
      [.workerThreadExecution, .processCallback, .then_ (some ())] s ∧
      (.completion ∈ s.processed ∧ () ∈ s.thens) := Machine.exists_run_of_replay _ _ _ (by decide)
  obtain ⟨s, run, there⟩ := found
  exact ⟨s, there, delivered_iff ⟨_, run⟩ (fortyTwo_finishes [1])⟩

/-- Even a function registered before the execution is never called, although the task's
`resolve` has been called with the result. -/
theorem early_registration_unheard :
    ∃ s : State ℕ Unit, (deferred fortyTwo [1]).Reachable s ∧
      fortyTwo.Finishes [1] (.value 42) ∧ s.settled = [.resolve (.value 42)] ∧ s.calls = [] ∧
      ¬Delivered s (.value 42) () := by
  have found : ∃ s : State ℕ Unit, (deferred fortyTwo [1]).Run (created [1])
      [.then_ (some ()), .workerThreadExecution, .processCallback] s ∧
      (.completion ∈ s.processed ∧ () ∈ s.thens ∧ s.calls = [] ∧
        s.settled = [.resolve (.value 42)]) := Machine.exists_run_of_replay _ _ _ (by decide)
  obtain ⟨s, run, processed, registered, unheard, settled⟩ := found
  refine ⟨s, ⟨_, run⟩, fortyTwo_finishes [1], settled, unheard, fun delivered => ?_⟩
  have called := delivered processed registered
  rw [unheard] at called
  cases called

end ProtoJS.Deferred
