import ProtoJS.Runtime.Deferred

/-! # How often a deferred task settles

Every path of `workerThreadExecution` enqueues one callback, and that callback settles the task
once, with a rejection exactly when the computation failed. The one exception is a failed
execution whose error cannot be serialized or copied: it enqueues a fallback rejection and then
falls through to the common completion callback, which rejects a second time.
-/

namespace ProtoJS.Deferred

variable {ω ν φ : Type*}

namespace Answers

variable (answers : Answers ω ν)

/-- The worker thread has a context, or obtains one. -/
def Ready : Prop := answers.hasContext ∨ answers.newRuntime ∧ answers.newContext

/-- The error or result can be serialized and its copy allocated. -/
def Transfers (object : ω) : Prop :=
  ∃ buffer, usable (answers.writeObject object) = some buffer ∧ answers.malloc buffer.length

/-- The computation failed: no context, no function, an exception of the function, or a C++
exception before its outcome was scheduled. -/
def Failed (serializedFunc : Buffer) : Prop :=
  ¬answers.Ready ∨ (∃ text, answers.readFunction serializedFunc = .error text) ∨
    (∃ exception, answers.callFunction = .error exception) ∨
    (answers.cppException .completion).isSome

/-- A failed execution whose error cannot be handed over, and whose fallback is scheduled. -/
def FallsThrough (serializedFunc : Buffer) : Prop :=
  answers.Ready ∧ answers.readFunction serializedFunc = .ok () ∧
    (∃ exception, answers.callFunction = .error exception ∧ ¬answers.Transfers exception) ∧
    answers.cppException .serializationMessage = none

end Answers

/-- Whether the callback rejects, given the worker's `hasError`. -/
def Callback.rejects (hasError : Bool) : Callback → Bool
  | .rejectWith _ => true
  | .completion => hasError

section Callbacks

variable {answers : Answers ω ν} {task : DeferredTask ν φ} {callback : Callback}

/-- A callback leaves the worker's verdict as it is. -/
@[simp] theorem runCallback_hasError :
    (runCallback answers task callback).1.hasError = task.hasError := by
  cases callback with
  | rejectWith message => rfl
  | completion =>
    simp only [runCallback]
    split <;> rfl

/-- A callback makes one call, of `reject` when the worker's verdict or the callback says so. -/
theorem runCallback_isReject :
    (runCallback answers task callback).2.isReject = callback.rejects task.hasError := by
  cases callback with
  | rejectWith message => rfl
  | completion =>
    simp only [runCallback, Callback.rejects]
    cases task.hasError with
    | true =>
      cases task.resultBuffer with
      | none => rfl
      | some buffer => cases found : answers.readObject buffer <;> simp [found, Settlement.isReject]
    | false =>
      cases task.resultBuffer with
      | none => rfl
      | some buffer => cases found : answers.readObject buffer <;> simp [found, Settlement.isReject]

theorem runCallbacks_isReject (callbacks : List Callback) :
    (runCallbacks answers task callbacks).2.map Settlement.isReject =
      callbacks.map (Callback.rejects task.hasError) := by
  induction callbacks generalizing task with
  | nil => rfl
  | cons callback rest ih =>
    simp only [runCallbacks, List.map_cons, runCallback_isReject, ih, runCallback_hasError]

/-- The enqueued callbacks decide, one by one, what the calls are. -/
theorem settlements_isReject (answers : Answers ω ν) (task : DeferredTask ν φ) :
    (settlements answers task).map Settlement.isReject =
    (workerThreadExecution answers task).2.map
      (Callback.rejects (workerThreadExecution answers task).1.hasError) :=
  runCallbacks_isReject _

end Callbacks

/-- The worker has enqueued a single callback, which rejects exactly under the condition. -/
def EnqueuesOne (rejects : Prop) (outcome : DeferredTask ν φ × List Callback) : Prop :=
  ∃ callback, outcome.2 = [callback] ∧ (callback.rejects outcome.1.hasError = true ↔ rejects)

section Worker

variable {answers : Answers ω ν} {task : DeferredTask ν φ} {rejects : Prop}

private theorem enqueuesOne_rejectWith {message : String} (failed : rejects) :
    EnqueuesOne rejects (task, [.rejectWith message]) :=
  ⟨_, rfl, iff_of_true rfl failed⟩

/-- The end of the `try` block schedules one callback, the completion or that of the `catch`. -/
theorem scheduleCompletion_enqueuesOne (verdict : rejects ↔ task.hasError = true ∨
    (answers.cppException .completion).isSome) :
    EnqueuesOne rejects (scheduleCompletion answers task []) := by
  unfold scheduleCompletion guarded
  cases thrown : answers.cppException .completion with
  | some message => exact enqueuesOne_rejectWith (verdict.mpr (.inr (by simp [thrown])))
  | none => exact ⟨.completion, rfl, by simp [Callback.rejects, verdict, thrown]⟩

/-- The fallback adds a callback to the one of the end of the `try` block. -/
theorem scheduleFallback_length (quiet : answers.cppException .serializationMessage = none) :
    (scheduleFallback answers task).2.length = 2 := by
  unfold scheduleFallback scheduleCompletion guarded
  rw [quiet]
  cases answers.cppException .completion <;> rfl

theorem scheduleFallback_enqueuesOne (failed : rejects)
    (thrown : answers.cppException .serializationMessage ≠ none) :
    EnqueuesOne rejects (scheduleFallback answers task) := by
  obtain ⟨message, same⟩ := Option.ne_none_iff_exists'.mp thrown
  unfold scheduleFallback guarded
  rw [same]
  exact enqueuesOne_rejectWith failed

theorem executeInContext_length (falls : answers.FallsThrough task.serializedFunc) :
    (executeInContext answers task).2.length = 2 := by
  obtain ⟨_, read, ⟨exception, called, stuck⟩, quiet⟩ := falls
  simp only [executeInContext, read, called]
  cases written : usable (answers.writeObject exception) with
  | none => exact scheduleFallback_length quiet
  | some buffer =>
    have full : ¬answers.malloc buffer.length := fun allocated => stuck ⟨buffer, written, allocated⟩
    simp only [full]
    exact scheduleFallback_length quiet

theorem executeInContext_enqueuesOne (ready : answers.Ready)
    (stays : ¬answers.FallsThrough task.serializedFunc) :
    EnqueuesOne (answers.Failed task.serializedFunc) (executeInContext answers task) := by
  cases read : answers.readFunction task.serializedFunc with
  | error text =>
    have failed : answers.Failed task.serializedFunc := .inr (.inl ⟨text, read⟩)
    simp only [executeInContext, read, guarded]
    cases answers.cppException .deserializationMessage <;> exact enqueuesOne_rejectWith failed
  | ok _ =>
    cases called : answers.callFunction with
    | error exception =>
      have failed : answers.Failed task.serializedFunc := .inr (.inr (.inl ⟨exception, called⟩))
      have fallback (stuck : ¬answers.Transfers exception) :
          answers.cppException .serializationMessage ≠ none :=
        fun quiet => stays ⟨ready, read, ⟨exception, called, stuck⟩, quiet⟩
      simp only [executeInContext, read, called]
      cases written : usable (answers.writeObject exception) with
      | none =>
        exact scheduleFallback_enqueuesOne failed
          (fallback fun ⟨_, transferred, _⟩ => by simp [written] at transferred)
      | some buffer =>
        by_cases allocated : answers.malloc buffer.length = true
        · simp only [if_pos allocated]
          exact scheduleCompletion_enqueuesOne (iff_of_true failed (.inl rfl))
        · simp only [if_neg allocated]
          refine scheduleFallback_enqueuesOne failed (fallback ?_)
          rintro ⟨other, transferred, there⟩
          rw [written, Option.some.injEq] at transferred
          exact allocated (transferred ▸ there)
    | ok result =>
      have verdict : answers.Failed task.serializedFunc ↔
          (false = true ∨ (answers.cppException .completion).isSome) := by
        simp [Answers.Failed, ready, read, called]
      simp only [executeInContext, read, called]
      cases usable (answers.writeObject result) with
      | none => exact scheduleCompletion_enqueuesOne verdict
      | some buffer =>
        by_cases allocated : answers.malloc buffer.length = true
        · simp only [if_pos allocated]
          exact scheduleCompletion_enqueuesOne verdict
        · simp only [if_neg allocated]
          exact scheduleCompletion_enqueuesOne verdict

/-- With a context the `try` block runs. -/
theorem workerThreadExecution_of_ready (ready : answers.Ready) :
    workerThreadExecution answers task = executeInContext answers task := by
  unfold workerThreadExecution
  rcases ready with there | ⟨runtime, context⟩
  · rw [if_pos there]
  · simp [runtime, context]

/-- Without a context one rejection is enqueued and the worker returns. -/
theorem workerThreadExecution_of_not_ready (unready : ¬answers.Ready) :
    EnqueuesOne (answers.Failed task.serializedFunc) (workerThreadExecution answers task) := by
  have failed : answers.Failed task.serializedFunc := .inl unready
  have absent : ¬answers.hasContext := fun there => unready (.inl there)
  unfold workerThreadExecution
  rw [if_neg absent]
  by_cases runtime : answers.newRuntime
  · have context : ¬answers.newContext := fun there => unready (.inr ⟨runtime, there⟩)
    rw [if_neg (not_not_intro runtime), if_pos context]
    exact enqueuesOne_rejectWith failed
  · rw [if_pos runtime]
    exact enqueuesOne_rejectWith failed

theorem workerThreadExecution_length (falls : answers.FallsThrough task.serializedFunc) :
    (workerThreadExecution answers task).2.length = 2 := by
  rw [workerThreadExecution_of_ready falls.1]
  exact executeInContext_length falls

theorem workerThreadExecution_enqueuesOne (stays : ¬answers.FallsThrough task.serializedFunc) :
    EnqueuesOne (answers.Failed task.serializedFunc) (workerThreadExecution answers task) := by
  by_cases ready : answers.Ready
  · rw [workerThreadExecution_of_ready ready]
    exact executeInContext_enqueuesOne ready stays
  · exact workerThreadExecution_of_not_ready ready

/-- Whatever happens, the worker leaves a callback behind. -/
theorem workerThreadExecution_ne_nil : (workerThreadExecution answers task).2 ≠ [] := by
  by_cases falls : answers.FallsThrough task.serializedFunc
  · have two := workerThreadExecution_length falls
    intro none
    rw [none] at two
    cases two
  · obtain ⟨callback, one, _⟩ := workerThreadExecution_enqueuesOne falls
    rw [one]
    exact List.cons_ne_nil _ _

end Worker

/-- A task settles exactly once, by a rejection exactly when its computation failed, unless the
execution fails and its error cannot be handed over. -/
theorem settles_once_iff (answers : Answers ω ν) (task : DeferredTask ν φ) :
    (∃ settlement, settlements answers task = [settlement] ∧
      (settlement.isReject = true ↔ answers.Failed task.serializedFunc)) ↔
      ¬answers.FallsThrough task.serializedFunc := by
  have calls := settlements_isReject answers task
  constructor
  · rintro ⟨settlement, one, _⟩ falls
    have two := workerThreadExecution_length falls
    have lengths := congrArg List.length calls
    rw [one] at lengths
    simp only [List.length_map, List.length_cons, List.length_nil] at lengths
    omega
  · intro stays
    obtain ⟨callback, one, verdict⟩ := workerThreadExecution_enqueuesOne stays
    rw [one, List.map_singleton, List.map_eq_singleton_iff] at calls
    obtain ⟨settlement, same, rejected⟩ := calls
    exact ⟨settlement, same, by rw [rejected, verdict]⟩

/-- A function that throws a value which cannot be serialized; nothing else goes wrong. -/
def unserializableError : Answers Unit Unit where
  hasContext := true
  newRuntime := true
  newContext := true
  readFunction _ := .ok ()
  callFunction := .error ()
  writeObject _ := none
  malloc _ := true
  readObject _ := some ()
  cppException _ := none

/-- Its task is rejected twice, by the fallback and by the completion callback. -/
theorem unserializableError_settles_twice :
    settlements unserializableError ({ serializedFunc := [1] } : DeferredTask Unit Unit) =
        [.reject (.string "Function execution failed (serialization error)"),
          .reject (.string "Function execution failed")] ∧
      ¬∃ settlement,
        settlements unserializableError ({ serializedFunc := [1] } : DeferredTask Unit Unit) =
            [settlement] ∧
          (settlement.isReject = true ↔ unserializableError.Failed [1]) := by
  have twice : settlements unserializableError ({ serializedFunc := [1] } : DeferredTask Unit Unit) =
      [.reject (.string "Function execution failed (serialization error)"),
        .reject (.string "Function execution failed")] := by decide
  refine ⟨twice, ?_⟩
  rintro ⟨settlement, one, _⟩
  rw [twice] at one
  simp at one

end ProtoJS.Deferred
