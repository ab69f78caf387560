import ProtoJS.Events.EventEmitter

/-! # Which removals remove the listener they name

`removeListener` drops the first handler of the vector that the event shares with every event of
the same C string. It is right where that handler is the one it was given, registered for the very
event, and where there is nothing to drop.
-/

namespace ProtoJS.Events

variable {Handler Arg : Type*}

/-- A handler in a vector, with the event it was registered for. -/
structure Enrolment (Handler : Type*) where
  eventName : String
  handler : Handler
deriving DecidableEq, Repr

section Enrolments

/-- What an operation does to the vectors. -/
def enrol (vectors : String → List (Enrolment Handler)) :
    Operation Handler Arg → String → List (Enrolment Handler)
  | .on eventName handler | .once eventName handler =>
    Function.update vectors (EventsModule.key eventName)
      (vectors (EventsModule.key eventName) ++ [⟨eventName, handler⟩])
  | .emit _ _ => vectors
  | .removeListener eventName _ => Function.update vectors (EventsModule.key eventName)
      (vectors (EventsModule.key eventName)).tail

/-- The vectors after a run. -/
def enrolled (operations : List (Operation Handler Arg)) : String → List (Enrolment Handler) :=
  operations.foldl enrol fun _ => []

/-- An operation leaves the vectors of the other names. -/
theorem enrol_other (vectors : String → List (Enrolment Handler))
    (operation : Operation Handler Arg) (name : String)
    (other : name ≠ EventsModule.key operation.eventName) :
    enrol vectors operation name = vectors name := by
  cases operation with
  | emit eventName args => rfl
  | on eventName handler | once eventName handler | removeListener eventName handler =>
    exact Function.update_of_ne other _ _

theorem enrolled_append (operations : List (Operation Handler Arg))
    (operation : Operation Handler Arg) :
    enrolled (operations ++ [operation]) = enrol (enrolled operations) operation := by
  simp [enrolled]

theorem enrol_listeners (vectors : String → List (Enrolment Handler))
    (operation : Operation Handler Arg) (name : String) :
    (enrol vectors operation name).map Enrolment.handler =
      (EventsModule.step ⟨fun name => (vectors name).map Enrolment.handler⟩
        operation).1.listeners name := by
  rcases eq_or_ne name (EventsModule.key operation.eventName) with rfl | other
  · cases operation with
    | on eventName handler | once eventName handler =>
      simp [EventsModule.step, EventsModule.once, EventsModule.on, enrol, Operation.eventName]
    | emit eventName args => rfl
    | removeListener eventName handler =>
      simp [EventsModule.step, EventsModule.removeListener, enrol, Operation.eventName]
  · rw [EventsModule.step_other _ operation name other, enrol_other vectors operation name other]

/-- In every run the vectors hold the handlers that are enrolled. -/
theorem after_eq_enrolled (operations : List (Operation Handler Arg)) :
    EventsModule.after operations =
      ⟨fun name => (enrolled operations name).map Enrolment.handler⟩ :=
  EventsModule.after_listeners_of _ enrol enrol_listeners operations

/-- A vector holds handlers of events of its own C string. -/
theorem key_of_mem_enrolled (operations : List (Operation Handler Arg)) (name : String)
    (enrolment : Enrolment Handler) (member : enrolment ∈ enrolled operations name) :
    EventsModule.key enrolment.eventName = name := by
  induction operations using List.reverseRecOn with
  | nil => cases member
  | append_singleton operations operation ih =>
    rw [enrolled_append] at member
    rcases eq_or_ne name (EventsModule.key operation.eventName) with rfl | other
    · cases operation with
      | on eventName handler | once eventName handler =>
        simp only [enrol, Operation.eventName, Function.update_self, List.mem_append,
          List.mem_singleton] at member
        rcases member with old | rfl
        · exact ih old
        · rfl
      | emit eventName args => exact ih member
      | removeListener eventName handler =>
        simp only [enrol, Operation.eventName, Function.update_self] at member
        exact ih (List.mem_of_mem_tail member)
    · rw [enrol_other _ operation name other] at member
      exact ih member

/-- The handlers registered for an event, in order. -/
def handlersOf (eventName : String) (vector : List (Enrolment Handler)) : List Handler :=
  (vector.filter fun enrolment => enrolment.eventName = eventName).map Enrolment.handler

/-- The registrations of an event after a run. -/
def registrations (operations : List (Operation Handler Arg)) (eventName : String) : List Handler :=
  handlersOf eventName (enrolled operations (EventsModule.key eventName))

@[simp] theorem handlersOf_cons_self (eventName : String) (handler : Handler)
    (rest : List (Enrolment Handler)) :
    handlersOf eventName (⟨eventName, handler⟩ :: rest) = handler :: handlersOf eventName rest := by
  simp [handlersOf]

theorem handlersOf_cons_other {eventName other : String} (differ : other ≠ eventName)
    (handler : Handler) (rest : List (Enrolment Handler)) :
    handlersOf other (⟨eventName, handler⟩ :: rest) = handlersOf other rest := by
  simp [handlersOf, differ.symm]

theorem registrations_removeListener (operations : List (Operation Handler Arg))
    (eventName other : String) (handler : Handler) :
    registrations (operations ++ [.removeListener eventName handler]) other =
      if EventsModule.key other = EventsModule.key eventName then
        handlersOf other (enrolled operations (EventsModule.key eventName)).tail
      else registrations operations other := by
  rw [registrations, enrolled_append, enrol]
  split
  · rename_i same
    rw [same, Function.update_self]
  · rename_i differ
    rw [Function.update_of_ne differ, registrations]

end Enrolments

section Removal

/-- After a run, the removal of a handler from an event ends one of its registrations there, or
none where it has none, and leaves the rest of the event and the other events in order. -/
def RemovesRight (operations : List (Operation Handler Arg)) (eventName : String)
    (handler : Handler) : Prop :=
  let before := registrations operations
  let after := registrations (operations ++ [.removeListener eventName handler])
  (handler ∈ before eventName → ∃ front back,
    before eventName = front ++ handler :: back ∧ after eventName = front ++ back) ∧
  (handler ∉ before eventName → after eventName = before eventName) ∧
  ∀ other ≠ eventName, after other = before other

/-- To drop the front and to drop a later entry comes to the same only where they are equal. -/
theorem eq_of_dropped {α : Type*} {first entry : α} {rest front back : List α}
    (whole : first :: rest = front ++ entry :: back) (dropped : rest = front ++ back) :
    first = entry := by
  induction front generalizing first rest with
  | nil => exact (List.cons.inj whole).1
  | cons next front ih =>
    obtain ⟨rfl, later⟩ := List.cons.inj whole
    exact ih (dropped.symm.trans later) rfl

/-- A removal is right exactly when the vector is empty, or its first handler is the one to be
removed and was registered for the event. -/
theorem removesRight_iff (operations : List (Operation Handler Arg)) (eventName : String)
    (handler : Handler) :
    RemovesRight operations eventName handler ↔
      enrolled operations (EventsModule.key eventName) = [] ∨
        (enrolled operations (EventsModule.key eventName)).head? = some ⟨eventName, handler⟩ := by
  simp only [RemovesRight, registrations_removeListener, if_true]
  have shared (other : String) (same : EventsModule.key other = EventsModule.key eventName) :
      registrations operations other =
        handlersOf other (enrolled operations (EventsModule.key eventName)) := by
    rw [registrations, same]
  have keys := key_of_mem_enrolled operations (EventsModule.key eventName)
  rw [shared eventName rfl]
  generalize enrolled operations (EventsModule.key eventName) = vector at shared keys
  rcases vector with _ | ⟨⟨firstName, firstHandler⟩, rest⟩
  · refine iff_of_true ⟨nofun, fun _ => rfl, ?_⟩ (.inl rfl)
    intro other _
    split
    · rename_i same
      exact (shared other same).symm
    · rfl
  · rw [List.tail_cons, List.head?_cons, Option.some_inj, Enrolment.mk.injEq]
    constructor
    · rintro ⟨present, absent, others⟩
      have named : firstName = eventName := by
        by_contra differ
        have sameKey := keys _ List.mem_cons_self
        have kept := others firstName differ
        rw [if_pos sameKey, shared firstName sameKey, handlersOf_cons_self] at kept
        exact List.cons_ne_self _ _ kept.symm
      subst named
      rw [handlersOf_cons_self] at present absent
      refine .inr ⟨rfl, ?_⟩
      by_cases there : handler ∈ firstHandler :: handlersOf firstName rest
      · obtain ⟨front, back, whole, dropped⟩ := present there
        exact eq_of_dropped whole dropped
      · exact absurd (absent there).symm (List.cons_ne_self _ _)
    · rintro (empty | ⟨rfl, rfl⟩)
      · cases empty
      · rw [handlersOf_cons_self]
        refine ⟨fun _ => ⟨[], _, rfl, rfl⟩, fun missing => ?_, ?_⟩
        · exact absurd List.mem_cons_self missing
        · intro other differ
          split
          · rename_i same
            rw [shared other same, handlersOf_cons_other differ]
          · rfl

/-- The handler that is named stays, and the one in front of it goes. -/
theorem not_removesRight_second :
    ¬RemovesRight ([.on "data" 1, .on "data" 2] : List (Operation ℕ ℕ)) "data" 2 := by
  rw [removesRight_iff]
  decide

end Removal

end ProtoJS.Events
