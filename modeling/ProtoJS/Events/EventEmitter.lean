import ProtoJS.Strings.CString

/-! # Event emitters

`EventsModule` keeps a vector of handlers for each event name. `once` is `on`, and
`removeListener` drops the first handler of the event. The registry beside it says what is
registered: a `once` registration ends with the emit that calls it, and a removal ends a
registration of the handler that it names.
-/

namespace ProtoJS.Events

open Strings

variable {Handler Arg : Type*}

/-- `EventEmitterData`: an event without an entry has no handlers. -/
structure Emitter (Handler : Type*) where
  listeners : String → List Handler := fun _ => []

/-- The calls on one emitter. -/
inductive Operation (Handler Arg : Type*) where
  | on (eventName : String) (handler : Handler)
  | once (eventName : String) (handler : Handler)
  | emit (eventName : String) (args : List Arg)
  | removeListener (eventName : String) (handler : Handler)
deriving DecidableEq, Repr

def Operation.eventName : Operation Handler Arg → String
  | .on eventName _ | .once eventName _ | .emit eventName _ | .removeListener eventName _ =>
    eventName

namespace EventsModule

/-- The map is keyed by the C string of the event name. -/
def key (eventName : String) : String := beforeNul eventName

def on (emitter : Emitter Handler) (eventName : String) (handler : Handler) : Emitter Handler where
  listeners := Function.update emitter.listeners (key eventName)
    (emitter.listeners (key eventName) ++ [handler])

def once (emitter : Emitter Handler) (eventName : String) (handler : Handler) : Emitter Handler :=
  on emitter eventName handler

/-- The handlers that are called, with the arguments of the call. -/
def emit (emitter : Emitter Handler) (eventName : String) (args : List Arg) :
    List (Handler × List Arg) :=
  (emitter.listeners (key eventName)).map fun handler => (handler, args)

/-- The handler is not looked at. -/
def removeListener (emitter : Emitter Handler) (eventName : String) (_handler : Handler) :
    Emitter Handler where
  listeners := Function.update emitter.listeners (key eventName)
    (emitter.listeners (key eventName)).tail

/-- The emitter after an operation, and the calls it makes. -/
def step (emitter : Emitter Handler) :
    Operation Handler Arg → Emitter Handler × List (Handler × List Arg)
  | .on eventName handler => (on emitter eventName handler, [])
  | .once eventName handler => (once emitter eventName handler, [])
  | .emit eventName args => (emitter, emit emitter eventName args)
  | .removeListener eventName handler => (removeListener emitter eventName handler, [])

/-- The emitter after a run of operations. -/
def after (operations : List (Operation Handler Arg)) : Emitter Handler :=
  operations.foldl (fun emitter operation => (step emitter operation).1) {}

theorem after_append (operations : List (Operation Handler Arg))
    (operation : Operation Handler Arg) :
    after (operations ++ [operation]) = (step (after operations) operation).1 := by
  simp [after]

/-- An operation leaves the vectors of the other names. -/
theorem step_other (emitter : Emitter Handler) (operation : Operation Handler Arg) (name : String)
    (other : name ≠ key operation.eventName) :
    (step emitter operation).1.listeners name = emitter.listeners name := by
  cases operation with
  | emit eventName args => rfl
  | on eventName handler | once eventName handler | removeListener eventName handler =>
    exact Function.update_of_ne other _ _

/-- Vectors of more than handlers that change as those of the emitter do hold its handlers after
every run. -/
theorem after_listeners_of {Entry : Type*} (handler : Entry → Handler)
    (change : (String → List Entry) → Operation Handler Arg → String → List Entry)
    (agrees : ∀ vectors operation name, (change vectors operation name).map handler =
      (step ⟨fun name => (vectors name).map handler⟩ operation).1.listeners name)
    (operations : List (Operation Handler Arg)) :
    after operations =
      ⟨fun name => ((operations.foldl change fun _ => []) name).map handler⟩ := by
  induction operations using List.reverseRecOn with
  | nil => rfl
  | append_singleton operations operation ih =>
    rw [after_append, ih, List.foldl_append]
    have same := funext (agrees (operations.foldl change fun _ => []) operation)
    exact congrArg Emitter.mk same.symm

end EventsModule

section Registry

/-- One registration of a handler. -/
structure Registration (Handler : Type*) where
  handler : Handler
  once : Bool
deriving DecidableEq, Repr

variable [DecidableEq Handler]

/-- What an operation does to the registrations. Of several registrations of one handler, the
oldest is removed. -/
def register (registrations : String → List (Registration Handler)) :
    Operation Handler Arg → String → List (Registration Handler)
  | .on eventName handler =>
    Function.update registrations eventName (registrations eventName ++ [⟨handler, false⟩])
  | .once eventName handler =>
    Function.update registrations eventName (registrations eventName ++ [⟨handler, true⟩])
  | .emit eventName _ =>
    Function.update registrations eventName
      ((registrations eventName).filter fun registration => !registration.once)
  | .removeListener eventName handler =>
    Function.update registrations eventName
      ((registrations eventName).eraseP fun registration => registration.handler = handler)

/-- No `once` registration outlasts an emit of its event. -/
theorem once_eq_false_of_mem_register_emit
    (registrations : String → List (Registration Handler)) (eventName : String)
    (args : List Arg) (registration : Registration Handler)
    (member : registration ∈ register registrations (.emit eventName args) eventName) :
    registration.once = false := by
  simp only [register, Function.update_self, List.mem_filter, Bool.not_eq_true'] at member
  exact member.2

/-- An emit ends no other registration, and leaves the others in order. -/
theorem filter_register_emit (registrations : String → List (Registration Handler))
    (eventName name : String) (args : List Arg) :
    (register registrations (.emit eventName args) name).filter (fun registration =>
        !registration.once) =
      (registrations name).filter fun registration => !registration.once := by
  rcases eq_or_ne name eventName with rfl | other
  · simp [register]
  · simp [register, other]

/-- The registrations of each event after a run, in the order in which they were made. -/
def registered (operations : List (Operation Handler Arg)) : String → List (Registration Handler) :=
  operations.foldl register fun _ => []

/-- Every emit calls the handlers that are registered for its event, in order. -/
def FiresAsRegistered (operations : List (Operation Handler Arg)) : Prop :=
  ∀ before eventName args later, operations = before ++ .emit eventName args :: later →
    EventsModule.emit (EventsModule.after before) eventName args =
      (registered before eventName).map fun registration => (registration.handler, args)

end Registry

end ProtoJS.Events
