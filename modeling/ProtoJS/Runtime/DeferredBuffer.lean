import ProtoJS.Machine.Run
import ProtoJS.Machine.Buffers
import ProtoJS.Runtime.Deferred

/-! # The buffer of a deferred function

`Deferred::constructor` copies the serialized function into a buffer and lets two `DeferredTask`
records point to it: the shared one, which the closures of the worker and of the event loop hold,
and a shallow copy of it, the opaque of the JS object. The shared record is destroyed with its last
`shared_ptr`, the copy by the finalizer of the object, which may run at any time once the
constructor has returned. Both release the buffer.
-/

namespace ProtoJS.DeferredBuffer

open Buffers Deferred

/-- The pointers of a `DeferredTask` to buffers of the main runtime. -/
structure DeferredTask (α : Type*) where
  serializedFunc : Option α
  serializedResult : Option α := none
deriving DecidableEq, Repr

variable {α ω ν φ : Type*}

/-- `~DeferredTask`. -/
def DeferredTask.destroy (task : DeferredTask α) (buffers : Table α) : Table α :=
  (buffers.freeIfSet task.serializedFunc).freeIfSet task.serializedResult

/-- `Deferred::finalizer`: what the record points to is released and the pointers are cleared
before the record is deleted. -/
def DeferredTask.finalize (task : DeferredTask α) (buffers : Table α) : Table α :=
  let released := (buffers.freeIfSet task.serializedFunc).freeIfSet task.serializedResult
  destroy { serializedFunc := none, serializedResult := none } released

/-- Where `workerThreadExecution` stands. -/
inductive WorkerPc where
  | queued
  /-- `JS_ReadObject` of the function has returned. -/
  | deserialized
  /-- The callbacks that are still to be enqueued. -/
  | enqueuing (callbacks : List Callback)
  | returned
deriving DecidableEq, Repr

structure State (α : Type*) where
  buffers : Table α
  /-- The shared record, until its destruction. -/
  task : Option (DeferredTask α)
  /-- The number of `shared_ptr` to it. -/
  useCount : ℕ
  /-- The opaque of the object, until its finalizer has run. -/
  taskPtr : Option (DeferredTask α)
  /-- `Deferred::constructor` has not returned yet. -/
  constructing : Bool
  worker : WorkerPc
  callbackQueue : List Callback
deriving DecidableEq, Repr

/-- What the calls of the constructor answer. -/
structure ConstructorAnswers where
  isFunction : Bool
  newObject : Bool
  hasWrapper : Bool
  /-- `JS_WriteObject` of the function. -/
  serialized : Option Buffer
  malloc : Bool

/-- The state in which the task has been submitted: both records point to the copied buffer, and
the constructor and the submitted closure each hold the shared one. -/
def submitted (copiedBuffer : α) : State α where
  buffers := ({} : Table α).malloc copiedBuffer
  task := some { serializedFunc := some copiedBuffer }
  useCount := 2
  taskPtr := some { serializedFunc := some copiedBuffer }
  constructing := true
  worker := .queued
  callbackQueue := []

/-- `Deferred::constructor` up to the submission of the task; `none` is the exception of
`JS_NewObjectClass`, a text the message of a `TypeError`. -/
def constructor (answers : ConstructorAnswers) (copiedBuffer : α) :
    Except (Option String) (State α) :=
  if ¬answers.isFunction then .error (some "Deferred expects a function")
  else if ¬answers.newObject then .error none
  else if ¬answers.hasWrapper then .error (some "Deferred: JSContextWrapper not found")
  else match usable answers.serialized with
  | none => .error (some ("Deferred: Function not serializable. " ++
      "Functions with complex closures may not be supported."))
  | some _ =>
    if ¬answers.malloc then
      .error (some "Deferred: Failed to allocate memory for serialized function")
    else .ok (submitted copiedBuffer)

/-- One `shared_ptr` to the shared record goes; with the last one the record is destroyed. -/
def State.dropReference (s : State α) : State α :=
  if s.useCount = 1 then
    { s with
      useCount := 0
      task := none
      buffers := match s.task with
        | some task => task.destroy s.buffers
        | none => s.buffers }
  else { s with useCount := s.useCount - 1 }

inductive Action (α : Type*) where
  | constructorReturns
  /-- The worker reads `task->serializedFunc`. -/
  | deserialize
  /-- The rest of the execution, up to its callbacks, with the buffer of the result, if any. -/
  | execute (copied : Option α)
  | enqueueCallback
  | workerReturns
  /-- The event loop runs the oldest callback and destroys it. -/
  | runCallback
  | finalizer
deriving DecidableEq, Repr

/-- `workerThreadExecution` has a context and comes to `JS_ReadObject`. -/
def reachesContext (answers : Answers ω ν) : Bool :=
  answers.hasContext || (answers.newRuntime && answers.newContext)

/-- The task record and the callbacks after the execution of a function. -/
def execution (answers : Answers ω ν) (function : Buffer) :
    Deferred.DeferredTask ν Unit × List Callback :=
  workerThreadExecution answers { serializedFunc := function }

section

variable [DecidableEq α] (answers : Answers ω ν) (function : Buffer)

def Enabled (s : State α) : Action α → Prop
  | .constructorReturns => s.constructing = true
  | .deserialize => s.worker = .queued ∧ reachesContext answers = true
  | .execute copied =>
    s.worker = (if reachesContext answers then .deserialized else .queued) ∧
      copied.isSome = (execution answers function).1.serializedResult.isSome ∧
      ∀ address ∈ copied, s.buffers.status address = .absent
  | .enqueueCallback => ∃ callback, ∃ rest, s.worker = .enqueuing (callback :: rest)
  | .workerReturns => s.worker = .enqueuing []
  | .runCallback => s.callbackQueue ≠ []
  | .finalizer => s.constructing = false ∧ s.taskPtr.isSome = true

/-- What the execution of a callback does to the shared record: the completion callback reads the
result, releases it and clears the pointer. -/
def afterCallback (s : State α) : Callback → State α
  | .rejectWith _ => s
  | .completion => match s.task with
    | some ⟨serializedFunc, some result⟩ =>
      { s with
        buffers := (s.buffers.read result).free result
        task := some { serializedFunc := serializedFunc } }
    | _ => s

def next (s : State α) : Action α → State α
  | .constructorReturns => { s.dropReference with constructing := false }
  | .deserialize => match s.task with
    | some ⟨some address, _⟩ =>
      { s with buffers := s.buffers.read address, worker := .deserialized }
    | _ => { s with worker := .deserialized }
  | .execute copied =>
    { s with
      buffers := match copied with
        | some address => s.buffers.malloc address
        | none => s.buffers
      task := s.task.map fun task => { task with serializedResult := copied }
      worker := .enqueuing (execution answers function).2 }
  | .enqueueCallback => match s.worker with
    | .enqueuing (callback :: rest) =>
      { s with
        worker := .enqueuing rest
        callbackQueue := s.callbackQueue ++ [callback]
        useCount := s.useCount + 1 }
    | _ => s
  | .workerReturns => { s.dropReference with worker := .returned }
  | .runCallback => match s.callbackQueue with
    | callback :: rest => (afterCallback { s with callbackQueue := rest } callback).dropReference
    | [] => s
  | .finalizer => match s.taskPtr with
    | some task => { s with taskPtr := none, buffers := task.finalize s.buffers }
    | none => s

/-- One deferred function from its submission on. -/
def lifecycle (copiedBuffer : α) : Machine (State α) (Action α) where
  initial := submitted copiedBuffer
  Enabled := Enabled answers function
  next := next answers function

end

section Accounting

/-- The records that still point to the buffer of the function. -/
def State.owners (s : State α) : ℕ :=
  (if s.task.isSome then 1 else 0) + (if s.taskPtr.isSome then 1 else 0)

/-- What the two records and the table say of the buffer, whoever holds the shared record. -/
structure Pointing [DecidableEq α] (copiedBuffer : α) (s : State α) : Prop where
  alive : s.task.isSome = true ↔ 0 < s.useCount
  shared : ∀ task ∈ s.task, task.serializedFunc = some copiedBuffer ∧
    task.serializedResult ≠ some copiedBuffer
  copy : ∀ task ∈ s.taskPtr, task = { serializedFunc := some copiedBuffer }
  present : copiedBuffer ∈ s.buffers.allocations
  /-- Every record releases the buffer when it goes. -/
  accounts : s.buffers.releases copiedBuffer + s.owners = 2

/-- The holders of the shared record: the constructor, the closure of the worker, the callbacks. -/
def State.holders (s : State α) : ℕ :=
  (if s.constructing then 1 else 0) + (if s.worker = .returned then 0 else 1) +
    s.callbackQueue.length

variable {s t : State α}

/-- Of the state the dropping of a reference touches the shared record and the buffers only. -/
theorem dropReference_eq (s : State α) : ∃ task buffers, s.dropReference =
    { s with useCount := s.useCount - 1, task := task, buffers := buffers } := by
  by_cases last : s.useCount = 1
  · simp [State.dropReference, last]
  · exact ⟨s.task, s.buffers, by rw [State.dropReference, if_neg last]⟩

/-- So does a callback. -/
theorem afterCallback_eq (s : State α) (callback : Callback) : ∃ task buffers,
    afterCallback s callback = { s with task := task, buffers := buffers } := by
  unfold afterCallback
  split
  · exact ⟨s.task, s.buffers, rfl⟩
  · split
    · exact ⟨_, _, rfl⟩
    · exact ⟨s.task, s.buffers, rfl⟩

@[simp] theorem dropReference_useCount : s.dropReference.useCount = s.useCount - 1 := by
  obtain ⟨_, _, same⟩ := dropReference_eq s
  rw [same]

@[simp] theorem dropReference_taskPtr : s.dropReference.taskPtr = s.taskPtr := by
  obtain ⟨_, _, same⟩ := dropReference_eq s
  rw [same]

@[simp] theorem dropReference_constructing : s.dropReference.constructing = s.constructing := by
  obtain ⟨_, _, same⟩ := dropReference_eq s
  rw [same]

@[simp] theorem dropReference_worker : s.dropReference.worker = s.worker := by
  obtain ⟨_, _, same⟩ := dropReference_eq s
  rw [same]

@[simp] theorem dropReference_callbackQueue : s.dropReference.callbackQueue = s.callbackQueue := by
  obtain ⟨_, _, same⟩ := dropReference_eq s
  rw [same]

@[simp] theorem afterCallback_useCount (callback : Callback) :
    (afterCallback s callback).useCount = s.useCount := by
  obtain ⟨_, _, same⟩ := afterCallback_eq s callback
  rw [same]

@[simp] theorem afterCallback_taskPtr (callback : Callback) :
    (afterCallback s callback).taskPtr = s.taskPtr := by
  obtain ⟨_, _, same⟩ := afterCallback_eq s callback
  rw [same]

@[simp] theorem afterCallback_constructing (callback : Callback) :
    (afterCallback s callback).constructing = s.constructing := by
  obtain ⟨_, _, same⟩ := afterCallback_eq s callback
  rw [same]

@[simp] theorem afterCallback_worker (callback : Callback) :
    (afterCallback s callback).worker = s.worker := by
  obtain ⟨_, _, same⟩ := afterCallback_eq s callback
  rw [same]

@[simp] theorem afterCallback_callbackQueue (callback : Callback) :
    (afterCallback s callback).callbackQueue = s.callbackQueue := by
  obtain ⟨_, _, same⟩ := afterCallback_eq s callback
  rw [same]

variable [DecidableEq α] {answers : Answers ω ν} {function : Buffer} {copiedBuffer : α}
  {a : Action α} {as : List (Action α)}

theorem pointing_submitted : Pointing copiedBuffer (submitted copiedBuffer) where
  alive := by simp [submitted]
  shared := by simp [submitted]
  copy := by simp [submitted]
  present := by simp [submitted, Table.malloc]
  accounts := by simp [submitted, State.owners, Table.releases, Table.malloc]

/-- Dropping a reference keeps the account: the last one destroys the record, which releases the
buffer. -/
theorem Pointing.dropReference (pointing : Pointing copiedBuffer s) (held : 0 < s.useCount) :
    Pointing copiedBuffer s.dropReference := by
  obtain ⟨task, found⟩ := Option.isSome_iff_exists.mp (pointing.alive.mpr held)
  obtain ⟨pointer, result⟩ := pointing.shared task found
  have accounts := pointing.accounts
  simp only [State.owners, found, Option.isSome_some, if_true] at accounts
  by_cases last : s.useCount = 1
  · have gone : s.dropReference = { s with
        useCount := 0, task := none, buffers := task.destroy s.buffers } := by
      simp [State.dropReference, last, found]
    have released : (task.destroy s.buffers).releases copiedBuffer =
        s.buffers.releases copiedBuffer + 1 := by
      rw [DeferredTask.destroy, Table.releases_freeIfSet_of_ne result, pointer]
      exact Table.releases_free_self
    have kept : (task.destroy s.buffers).allocations = s.buffers.allocations := by
      unfold DeferredTask.destroy
      cases task.serializedFunc <;> cases task.serializedResult <;> rfl
    rw [gone]
    constructor
    · simp
    · simp
    · exact pointing.copy
    · exact kept ▸ pointing.present
    · simp only [State.owners, released]
      simp
      omega
  · have stays : s.dropReference = { s with useCount := s.useCount - 1 } := by
      simp [State.dropReference, last]
    rw [stays]
    constructor
    · simp only [found, Option.isSome_some, true_iff]
      omega
    · exact pointing.shared
    · exact pointing.copy
    · exact pointing.present
    · simpa [State.owners, found] using accounts

theorem Pointing.afterCallback (pointing : Pointing copiedBuffer s) (callback : Callback) :
    Pointing copiedBuffer (afterCallback s callback) := by
  cases callback with
  | rejectWith message => exact pointing
  | completion =>
    match found : s.task with
    | none | some ⟨_, none⟩ => simpa [DeferredBuffer.afterCallback, found] using pointing
    | some ⟨serializedFunc, some result⟩ =>
      obtain ⟨pointer, other⟩ := pointing.shared _ found
      have accounts := pointing.accounts
      simp only [DeferredBuffer.afterCallback, found]
      constructor
      · simpa [found] using pointing.alive
      · simpa using pointer
      · exact pointing.copy
      · exact pointing.present
      · have distinct : result ≠ copiedBuffer := fun same => other (congrArg some same)
        simpa [State.owners, found, Table.releases_free_of_ne distinct] using accounts

/-- The invariant of every run. -/
structure Accounted (copiedBuffer : α) (s : State α) : Prop where
  held : s.useCount = s.holders
  pointing : Pointing copiedBuffer s

theorem Accounted.task_of_worker (accounted : Accounted copiedBuffer s)
    (working : s.worker ≠ .returned) : ∃ task, s.task = some task := by
  refine Option.isSome_iff_exists.mp (accounted.pointing.alive.mpr ?_)
  rw [accounted.held, State.holders, if_neg working]
  omega

private theorem accounted_deserialize (accounted : Accounted copiedBuffer s)
    (enabled : Enabled answers function s .deserialize) :
    Accounted copiedBuffer (next answers function s .deserialize) := by
  obtain ⟨queued, _⟩ := enabled
  obtain ⟨⟨_, result⟩, found⟩ := accounted.task_of_worker (by simp [queued])
  obtain ⟨rfl, _⟩ := accounted.pointing.shared _ found
  have held := accounted.held
  simp only [State.holders, queued] at held
  simp only [next, found]
  constructor
  · simpa [State.holders] using held
  · obtain ⟨alive, shared, copy, present, accounts⟩ := accounted.pointing
    rw [found] at alive shared
    exact ⟨alive, shared, copy, present, by simpa [State.owners, found] using accounts⟩

private theorem accounted_execute (accounted : Accounted copiedBuffer s) {copied : Option α}
    (enabled : Enabled answers function s (.execute copied)) :
    Accounted copiedBuffer (next answers function s (.execute copied)) := by
  obtain ⟨before, _, fresh⟩ := enabled
  have working : s.worker ≠ .returned := by
    rw [before]
    split <;> simp
  have held := accounted.held
  simp only [State.holders, if_neg working] at held
  obtain ⟨alive, shared, copy, present, accounts⟩ := accounted.pointing
  have other : copied ≠ some copiedBuffer := by
    rintro rfl
    have absent := fresh copiedBuffer rfl
    simp only [Table.status, present, if_true] at absent
    split at absent <;> cases absent
  simp only [next]
  refine ⟨by simpa [State.holders] using held, ?_, ?_, copy, ?_, ?_⟩
  · simpa using alive
  · intro task member
    obtain ⟨task, found, rfl⟩ := Option.map_eq_some_iff.mp member
    exact ⟨(shared task found).1, other⟩
  · cases copied with
    | none => exact present
    | some address => exact List.mem_cons_of_mem _ present
  · cases copied <;> simpa [State.owners] using accounts

private theorem accounted_finalizer (accounted : Accounted copiedBuffer s)
    (enabled : Enabled answers function s .finalizer) :
    Accounted copiedBuffer (next answers function s .finalizer) := by
  obtain ⟨taskPtr, found⟩ := Option.isSome_iff_exists.mp enabled.2
  obtain ⟨alive, shared, copy, present, accounts⟩ := accounted.pointing
  cases copy _ found
  simp only [State.owners, found, Option.isSome_some, if_true] at accounts
  simp only [next, found, DeferredTask.finalize, DeferredTask.destroy, Table.freeIfSet]
  refine ⟨accounted.held, alive, shared, by simp, present, ?_⟩
  simp only [State.owners, Table.releases_free_self]
  simp
  omega

theorem accounted_next (accounted : Accounted copiedBuffer s)
    (enabled : Enabled answers function s a) :
    Accounted copiedBuffer (next answers function s a) := by
  have held := accounted.held
  cases a with
  | constructorReturns =>
    simp only [State.holders, show s.constructing = true from enabled, if_true] at held
    obtain ⟨alive, shared, copy, present, accounts⟩ :=
      accounted.pointing.dropReference (by omega)
    refine ⟨?_, alive, shared, copy, present, accounts⟩
    simp [next, State.holders, held]
    omega
  | deserialize => exact accounted_deserialize accounted enabled
  | execute copied => exact accounted_execute accounted enabled
  | enqueueCallback =>
    obtain ⟨callback, rest, there⟩ := enabled
    obtain ⟨task, found⟩ := accounted.task_of_worker (by simp [there])
    obtain ⟨alive, shared, copy, present, accounts⟩ := accounted.pointing
    simp only [State.holders, there] at held
    simp only [next, there]
    refine ⟨?_, by simp [found], shared, copy, present, accounts⟩
    simp [State.holders, held]
    omega
  | workerReturns =>
    simp only [State.holders, show s.worker = .enqueuing [] from enabled] at held
    obtain ⟨alive, shared, copy, present, accounts⟩ :=
      accounted.pointing.dropReference (by simp only [held]; simp)
    refine ⟨?_, alive, shared, copy, present, accounts⟩
    simp [next, State.holders, held]
  | runCallback =>
    obtain ⟨callback, rest, there⟩ := List.exists_cons_of_ne_nil enabled
    simp only [State.holders, there, List.length_cons] at held
    have popped : Pointing copiedBuffer { s with callbackQueue := rest } := by
      obtain ⟨alive, shared, copy, present, accounts⟩ := accounted.pointing
      exact ⟨alive, shared, copy, present, accounts⟩
    simp only [next, there]
    refine ⟨?_, (popped.afterCallback callback).dropReference ?_⟩
    · simp [State.holders, held]
    · simp [held]
  | finalizer => exact accounted_finalizer accounted enabled

theorem accounted_submitted : Accounted copiedBuffer (submitted copiedBuffer) :=
  ⟨rfl, pointing_submitted⟩

theorem accounted_of_reachable (reachable : (lifecycle answers function copiedBuffer).Reachable s) :
    Accounted copiedBuffer s :=
  reachable.invariant accounted_submitted fun _ _ _ enabled accounted =>
    accounted_next accounted enabled

theorem releases_of_destroyed (reachable : (lifecycle answers function copiedBuffer).Reachable s)
    (destroyed : s.task = none) (finalized : s.taskPtr = none) :
    s.buffers.releases copiedBuffer = 2 := by
  simpa [State.owners, destroyed, finalized] using
    (accounted_of_reachable reachable).pointing.accounts

/-- While one record only is left, the buffer has been released once. -/
theorem releases_eq_one_iff (reachable : (lifecycle answers function copiedBuffer).Reachable s) :
    s.buffers.releases copiedBuffer = 1 ↔ (s.task = none ↔ s.taskPtr ≠ none) := by
  have accounts := (accounted_of_reachable reachable).pointing.accounts
  cases task : s.task <;> cases taskPtr : s.taskPtr <;>
    simp [State.owners, task, taskPtr] at accounts ⊢ <;> omega

end Accounting

section Reading

variable [DecidableEq α] {answers : Answers ω ν} {function : Buffer} {copiedBuffer : α}
  {s : State α} {a : Action α} {as : List (Action α)}

private theorem pair_sublist_concat {β : Type*} {x y z : β} {l : List β} :
    [x, y].Sublist (l ++ [z]) ↔ [x, y].Sublist l ∨ x ∈ l ∧ y = z := by
  constructor
  · intro sublist
    obtain ⟨front, last, split, inFront, inLast⟩ := List.sublist_append_iff.mp sublist
    rcases List.sublist_singleton.mp inLast with rfl | rfl
    · exact .inl (by rwa [split, List.append_nil])
    · have halves : [x] ++ [y] = front ++ [z] := split
      obtain ⟨rfl, same⟩ : [x] = front ∧ [y] = [z] := by
        apply List.append_inj' halves
        rfl
      exact .inr ⟨List.singleton_sublist.mp inFront, by simpa using same⟩
  · rintro (inside | ⟨member, rfl⟩)
    · exact inside.trans (List.sublist_append_left l [z])
    · exact (List.singleton_sublist.mpr member).append (List.Sublist.refl [y])

private theorem taskPtr_next (enabled : Enabled answers function s a) :
    (next answers function s a).taskPtr = if a = .finalizer then none else s.taskPtr := by
  cases a with
  | constructorReturns | workerReturns => simp [next]
  | deserialize => unfold next; dsimp only; split <;> simp
  | execute copied => simp [next]
  | enqueueCallback => unfold next; dsimp only; split <;> simp
  | runCallback => unfold next; dsimp only; split <;> simp
  | finalizer =>
    obtain ⟨taskPtr, found⟩ := Option.isSome_iff_exists.mp enabled.2
    simp [next, found]

theorem taskPtr_eq_none_iff (run : (lifecycle answers function copiedBuffer).Run
    (submitted copiedBuffer) as s) : s.taskPtr = none ↔ .finalizer ∈ as := by
  refine run.history (P := fun as s => s.taskPtr = none ↔ .finalizer ∈ as)
    (by simp [submitted]) ?_
  intro as s a _ enabled known
  have kept : ((lifecycle answers function copiedBuffer).next s a).taskPtr = _ :=
    taskPtr_next enabled
  rw [kept, List.mem_append, List.mem_singleton, ← known]
  by_cases last : a = .finalizer
  · simp [last]
  · simp [last, Ne.symm last]

omit [DecidableEq α] in
private theorem readAfterFree_dropReference :
    ReadAfterFree copiedBuffer s.dropReference.buffers.accesses ↔
      ReadAfterFree copiedBuffer s.buffers.accesses := by
  unfold State.dropReference
  split
  · cases s.task <;> simp [DeferredTask.destroy]
  · rfl

private theorem readAfterFree_afterCallback (pointing : Pointing copiedBuffer s)
    (callback : Callback) :
    ReadAfterFree copiedBuffer (afterCallback s callback).buffers.accesses ↔
      ReadAfterFree copiedBuffer s.buffers.accesses := by
  cases callback with
  | rejectWith message => rfl
  | completion =>
    match found : s.task with
    | none | some ⟨_, none⟩ => simp [afterCallback, found]
    | some ⟨serializedFunc, some result⟩ =>
      have distinct : result ≠ copiedBuffer :=
        fun same => (pointing.shared _ found).2 (congrArg some same)
      simp [afterCallback, found, Table.readAfterFree_read_of_ne distinct]

/-- Only the deserialization reads the buffer, and the finalizer is all that can have released it
by then: the worker still holds the shared record. -/
private theorem readAfterFree_next (accounted : Accounted copiedBuffer s)
    (enabled : Enabled answers function s a) :
    ReadAfterFree copiedBuffer (next answers function s a).buffers.accesses ↔
      ReadAfterFree copiedBuffer s.buffers.accesses ∨ s.taskPtr = none ∧ .deserialize = a := by
  cases a with
  | constructorReturns | workerReturns => simp [next, readAfterFree_dropReference]
  | deserialize =>
    obtain ⟨⟨_, result⟩, found⟩ := accounted.task_of_worker (by simp [enabled.1])
    obtain ⟨rfl, _⟩ := accounted.pointing.shared _ found
    have accounts := accounted.pointing.accounts
    simp only [next, found, Table.readAfterFree_read]
    cases taskPtr : s.taskPtr with
    | none =>
      simp only [State.owners, found, taskPtr] at accounts
      simp at accounts
      simp [accounts]
    | some task =>
      simp only [State.owners, found, taskPtr] at accounts
      simp at accounts
      simp [accounts]
  | execute copied => cases copied <;> simp [next]
  | enqueueCallback =>
    obtain ⟨callback, rest, there⟩ := enabled
    simp [next, there]
  | runCallback =>
    obtain ⟨callback, rest, there⟩ := List.exists_cons_of_ne_nil enabled
    obtain ⟨alive, shared, copy, present, accounts⟩ := accounted.pointing
    have popped : Pointing copiedBuffer { s with callbackQueue := rest } :=
      ⟨alive, shared, copy, present, accounts⟩
    simp [next, there, readAfterFree_dropReference, readAfterFree_afterCallback popped]
  | finalizer =>
    obtain ⟨taskPtr, found⟩ := Option.isSome_iff_exists.mp enabled.2
    simp [next, found, DeferredTask.finalize, DeferredTask.destroy]

/-- The worker reads a released buffer exactly when the finalizer precedes the deserialization. -/
theorem readAfterFree_iff (run : (lifecycle answers function copiedBuffer).Run
    (submitted copiedBuffer) as s) :
    ReadAfterFree copiedBuffer s.buffers.accesses ↔ [.finalizer, .deserialize].Sublist as := by
  refine run.history (P := fun as s => ReadAfterFree copiedBuffer s.buffers.accesses ↔
    [.finalizer, .deserialize].Sublist as) (by simp [submitted, ReadAfterFree, Table.malloc]) ?_
  intro as s a before enabled known
  have step : ReadAfterFree copiedBuffer
      ((lifecycle answers function copiedBuffer).next s a).buffers.accesses ↔ _ :=
    readAfterFree_next (accounted_of_reachable ⟨as, before⟩) enabled
  rw [step, known, taskPtr_eq_none_iff before, pair_sublist_concat]

omit [DecidableEq α] in
theorem constructor_eq_ok {calls : ConstructorAnswers}
    (made : constructor calls copiedBuffer = .ok s) : s = submitted copiedBuffer := by
  unfold constructor at made
  split_ifs at made
  · split at made <;> cases made
    rfl
  · split at made <;> cases made

/-- The buffer is released once as long as exactly one of the records has gone, and is not read
after that unless the finalizer precedes the deserialization; once both have gone, never. -/
theorem releasedOnce_iff {calls : ConstructorAnswers} {start : State α}
    (made : constructor calls copiedBuffer = .ok start)
    (run : (lifecycle answers function copiedBuffer).Run start as s) :
    (ReleasedOnce s.buffers copiedBuffer ↔
      (s.task = none ↔ s.taskPtr ≠ none) ∧ ¬[.finalizer, .deserialize].Sublist as) ∧
    (s.task = none → s.taskPtr = none → ¬ReleasedOnce s.buffers copiedBuffer) := by
  cases constructor_eq_ok made
  have reachable : (lifecycle answers function copiedBuffer).Reachable s := ⟨as, run⟩
  constructor
  · rw [← readAfterFree_iff run, ← releases_eq_one_iff reachable]
    exact ⟨fun kept => ⟨kept.once, kept.unread⟩, fun kept => ⟨kept.1, kept.2⟩⟩
  · intro destroyed finalized kept
    have twice := releases_of_destroyed reachable destroyed finalized
    have once := kept.once
    omega

end Reading

section Orders

/-- A function that returns a value of one byte; every call outside of the repository succeeds. -/
def plainAnswers : Answers Unit Unit where
  hasContext := true
  newRuntime := true
  newContext := true
  readFunction _ := .ok ()
  callFunction := .ok ()
  writeObject _ := some [0]
  malloc _ := true
  readObject _ := some ()
  cppException _ := none

def plainConstructor : ConstructorAnswers where
  isFunction := true
  newObject := true
  hasWrapper := true
  serialized := some [1]
  malloc := true

instance (s : State ℕ) : DecidablePred (Enabled plainAnswers [1] s)
  | .constructorReturns => inferInstanceAs (Decidable (s.constructing = true))
  | .deserialize => inferInstanceAs (Decidable (_ ∧ _))
  | .execute copied => inferInstanceAs (Decidable (_ ∧ _ ∧ ∀ address ∈ copied, _))
  | .enqueueCallback => match found : s.worker with
    | .enqueuing (callback :: rest) => isTrue ⟨callback, rest, found⟩
    | .enqueuing [] | .queued | .deserialized | .returned => isFalse (by simp [Enabled, found])
  | .workerReturns => inferInstanceAs (Decidable (s.worker = .enqueuing []))
  | .runCallback => inferInstanceAs (Decidable (s.callbackQueue ≠ []))
  | .finalizer => inferInstanceAs (Decidable (_ ∧ _))

instance (s : State ℕ) : DecidablePred ((lifecycle plainAnswers [1] 0).Enabled s) :=
  inferInstanceAs (DecidablePred (Enabled plainAnswers [1] s))

/-- The task is executed and its callback run before the object goes. -/
def finalizerLast : List (Action ℕ) :=
  [.constructorReturns, .deserialize, .execute (some 1), .enqueueCallback, .workerReturns,
    .runCallback, .finalizer]

/-- The object goes before the worker comes to its task. -/
def finalizerFirst : List (Action ℕ) :=
  [.constructorReturns, .finalizer, .deserialize, .execute (some 1), .enqueueCallback,
    .workerReturns, .runCallback]

theorem releasedOnce_iff_finalizerLast :
    constructor plainConstructor 0 = .ok (submitted 0) ∧
    ∃ s, (lifecycle plainAnswers [1] 0).Run (submitted 0) finalizerLast s ∧
      s.task = none ∧ s.taskPtr = none ∧ ¬ReleasedOnce s.buffers 0 := by
  obtain ⟨s, run, destroyed, finalized⟩ := (lifecycle plainAnswers [1] 0).exists_run_of_replay
    (submitted 0) finalizerLast (fun s => s.task = none ∧ s.taskPtr = none) (by decide)
  exact ⟨rfl, s, run, destroyed, finalized,
    (releasedOnce_iff (show constructor plainConstructor 0 = _ from rfl) run).2 destroyed finalized⟩

/-- One order releases the buffer twice, another one has the worker read it after its release. -/
theorem buffer_misused :
    (∃ s, (lifecycle plainAnswers [1] 0).Run (submitted 0) finalizerLast s ∧
      s.task = none ∧ s.taskPtr = none ∧ s.buffers.releases 0 = 2) ∧
    ∃ s, (lifecycle plainAnswers [1] 0).Run (submitted 0) finalizerFirst s ∧
      s.task = none ∧ s.taskPtr = none ∧ ReadAfterFree 0 s.buffers.accesses := by
  constructor
  · exact (lifecycle plainAnswers [1] 0).exists_run_of_replay (submitted 0) finalizerLast
      (fun s => s.task = none ∧ s.taskPtr = none ∧ s.buffers.releases 0 = 2) (by decide)
  · obtain ⟨s, run, destroyed, finalized⟩ := (lifecycle plainAnswers [1] 0).exists_run_of_replay
      (submitted 0) finalizerFirst (fun s => s.task = none ∧ s.taskPtr = none) (by decide)
    exact ⟨s, run, destroyed, finalized, (readAfterFree_iff run).mpr (by decide)⟩

end Orders

end ProtoJS.DeferredBuffer
