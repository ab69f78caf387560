import Mathlib

/-! # Deferred tasks

One `DeferredTask` record, what `workerThreadExecution` does with it on a worker thread, and what
the callbacks it enqueues do on the main thread. QuickJS and the allocator are outside of the
repository: `Answers` collects what their calls answer for one task. A C++ exception is one thrown
by a statement that allocates; such a statement has no effect when it throws. Values of the
worker's context and of the main context have types of their own, `ω` and `ν`.
-/

namespace ProtoJS.Deferred

abbrev Buffer := List UInt8

/-- The argument of a `resolve` or `reject` call. -/
inductive Argument (ν : Type*) where
  | undefined
  | string (text : String)
  | value (v : ν)
deriving DecidableEq, Repr

/-- The statements of the `try` block that allocate in C++. -/
inductive Allocation where
  /-- The message of a deserialization failure and the enqueueing of its callback. -/
  | deserializationMessage
  /-- The message of a serialization failure and the enqueueing of its callback. -/
  | serializationMessage
  /-- The enqueueing of the completion callback. -/
  | completion
deriving DecidableEq, Repr

/-- What the calls outside of the repository answer. -/
structure Answers (ω ν : Type*) where
  /-- The worker thread has a context from an earlier task. -/
  hasContext : Bool
  newRuntime : Bool
  newContext : Bool
  /-- `JS_ReadObject` of the function, in the worker: an exception comes with its text, if any. -/
  readFunction : Buffer → Except (Option String) Unit
  /-- `JS_Call` of the function: an exception value, or a result. -/
  callFunction : Except ω ω
  /-- `JS_WriteObject` in the worker. -/
  writeObject : ω → Option Buffer
  /-- `js_malloc_rt` of so many bytes in the main runtime. -/
  malloc : ℕ → Bool
  /-- `JS_ReadObject` of a result or an error, in the main context; `none` is an exception. -/
  readObject : Buffer → Option ν
  /-- The text of the exception that an allocating statement throws. -/
  cppException : Allocation → Option String

/-- The promise state and the worker's outcome; `φ` are the functions of the script. -/
structure DeferredTask (ν φ : Type*) where
  serializedFunc : Buffer
  result : Argument ν := .undefined
  error : Argument ν := .undefined
  isResolved : Bool := false
  isRejected : Bool := false
  thenCallback : Option φ := none
  catchCallback : Option φ := none
  serializedResult : Option Buffer := none
  serializedResultSize : ℕ := 0
  hasError : Bool := false
deriving DecidableEq

/-- The callbacks that `workerThreadExecution` enqueues. -/
inductive Callback where
  /-- Reject with a message. -/
  | rejectWith (message : String)
  /-- Deserialize and settle. -/
  | completion
deriving DecidableEq, Repr

/-- A call of the task's `resolve` or `reject`. -/
inductive Settlement (ν : Type*) where
  | resolve (argument : Argument ν)
  | reject (argument : Argument ν)
deriving DecidableEq, Repr

def Settlement.isReject {ν : Type*} : Settlement ν → Bool
  | .resolve _ => false
  | .reject _ => true

variable {ω ν φ : Type*}

/-- A non-null buffer of positive size. -/
def usable : Option Buffer → Option Buffer
  | some buffer => if buffer.length > 0 then some buffer else none
  | none => none

/-- The `catch` clause around an allocating statement, or the end of the `try` block. -/
def guarded (answers : Answers ω ν) (statement : Allocation) (task : DeferredTask ν φ)
    (enqueued : List Callback)
    (rest : List Callback → DeferredTask ν φ × List Callback) : DeferredTask ν φ × List Callback :=
  match answers.cppException statement with
  | some message => (task, enqueued ++ [.rejectWith message])
  | none => rest enqueued

/-- The end of the `try` block: schedule the completion callback. -/
def scheduleCompletion (answers : Answers ω ν) (task : DeferredTask ν φ)
    (enqueued : List Callback) : DeferredTask ν φ × List Callback :=
  guarded answers .completion task enqueued fun enqueued => (task, enqueued ++ [.completion])

/-- The fallback of a failed execution whose error cannot be handed over; the worker goes on to
the completion callback. -/
def scheduleFallback (answers : Answers ω ν) (task : DeferredTask ν φ) :
    DeferredTask ν φ × List Callback :=
  guarded answers .serializationMessage task [] fun enqueued =>
    scheduleCompletion answers task
      (enqueued ++ [.rejectWith "Function execution failed (serialization error)"])

/-- The `try` block of `workerThreadExecution`. -/
def executeInContext (answers : Answers ω ν) (task : DeferredTask ν φ) :
    DeferredTask ν φ × List Callback :=
  match answers.readFunction task.serializedFunc with
  | .error text =>
    guarded answers .deserializationMessage { task with hasError := true } [] fun enqueued =>
      ({ task with hasError := true },
        enqueued ++ [.rejectWith (text.getD "Failed to deserialize function")])
  | .ok () =>
    match answers.callFunction with
    | .error exception =>
      match usable (answers.writeObject exception) with
      | some buffer =>
        if answers.malloc buffer.length then
          scheduleCompletion answers
            { task with
              hasError := true
              serializedResult := some buffer
              serializedResultSize := buffer.length } []
        else scheduleFallback answers { task with hasError := true }
      | none => scheduleFallback answers { task with hasError := true }
    | .ok result =>
      match usable (answers.writeObject result) with
      | some buffer =>
        if answers.malloc buffer.length then
          scheduleCompletion answers
            { task with
              hasError := false
              serializedResult := some buffer
              serializedResultSize := buffer.length } []
        else
          scheduleCompletion answers
            { task with hasError := false, serializedResult := none, serializedResultSize := 0 } []
      | none =>
        scheduleCompletion answers
          { task with hasError := false, serializedResult := none, serializedResultSize := 0 } []

/-- `workerThreadExecution`: the task record afterwards and the callbacks it has enqueued. -/
def workerThreadExecution (answers : Answers ω ν) (task : DeferredTask ν φ) :
    DeferredTask ν φ × List Callback :=
  if answers.hasContext then executeInContext answers task
  else if ¬answers.newRuntime then
    ({ task with hasError := true, serializedResultSize := 0 },
      [.rejectWith "Failed to create worker thread runtime"])
  else if ¬answers.newContext then
    ({ task with hasError := true }, [.rejectWith "Failed to create worker thread context"])
  else executeInContext answers task

/-- The buffer a completion callback reads, if there is one. -/
def DeferredTask.resultBuffer (task : DeferredTask ν φ) : Option Buffer :=
  match task.serializedResult with
  | some buffer => if task.serializedResultSize > 0 then some buffer else none
  | none => none

/-- Run one enqueued callback in the event loop: the task record afterwards and the call it has
made of the task's `resolve` or `reject`. -/
def runCallback (answers : Answers ω ν) (task : DeferredTask ν φ) :
    Callback → DeferredTask ν φ × Settlement ν
  | .rejectWith message => (task, .reject (.string message))
  | .completion =>
    let settlement : Settlement ν :=
      if task.hasError then
        match task.resultBuffer with
        | some buffer =>
          match answers.readObject buffer with
          | some error => .reject (.value error)
          | none => .reject (.string "Function execution failed")
        | none => .reject (.string "Function execution failed")
      else
        match task.resultBuffer with
        | some buffer =>
          match answers.readObject buffer with
          | some result => .resolve (.value result)
          | none => .resolve .undefined
        | none => .resolve .undefined
    let freed : DeferredTask ν φ :=
      if task.serializedResult.isSome then
        { task with serializedResult := none, serializedResultSize := 0 }
      else task
    (freed, settlement)

/-- Run the enqueued callbacks in the order in which they were enqueued. -/
def runCallbacks (answers : Answers ω ν) (task : DeferredTask ν φ) :
    List Callback → DeferredTask ν φ × List (Settlement ν)
  | [] => (task, [])
  | callback :: rest =>
    let (next, settlement) := runCallback answers task callback
    let (final, settlements) := runCallbacks answers next rest
    (final, settlement :: settlements)

/-- All calls of `resolve` and `reject` that one task leads to. -/
def settlements (answers : Answers ω ν) (task : DeferredTask ν φ) : List (Settlement ν) :=
  let (executed, enqueued) := workerThreadExecution answers task
  (runCallbacks answers executed enqueued).2

end ProtoJS.Deferred
