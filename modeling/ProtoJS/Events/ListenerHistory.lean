import ProtoJS.Events.EventEmitter

/-! # Which runs of an emitter fire as registered

The vector of an event forgets how its handlers were registered. The history keeps that beside
each of them, and whether an emit has called it. A run is orderly when no emit meets a `once`
handler that has been called and every removal drops the registration that it names; in an
orderly run the registrations are what the history holds and has not yet spent.
-/

namespace ProtoJS.Events

variable {Handler Arg : Type*}

/-- A handler in the vector of its event. -/
structure Held (Handler : Type*) extends Registration Handler where
  called : Bool
deriving DecidableEq, Repr

namespace Held

/-- A `once` registration ends with the first call. -/
def spent (held : Held Handler) : Bool := held.once && held.called

def call (held : Held Handler) : Held Handler := { held with called := true }

/-- The registrations that have not ended. -/
def standing (history : List (Held Handler)) : List (Registration Handler) :=
  (history.filter fun held => !held.spent).map toRegistration

theorem standing_append (history : List (Held Handler)) (held : Held Handler) :
    standing (history ++ [held]) =
      standing history ++ if held.spent then [] else [held.toRegistration] := by
  cases spent : held.spent <;> simp [standing, List.filter_append, spent]

/-- After an emit, the `once` registrations have ended. -/
theorem standing_map_call (history : List (Held Handler)) :
    standing (history.map call) =
      (standing history).filter fun registration => !registration.once := by
  induction history with
  | nil => rfl
  | cons held history ih =>
    cases once : held.once <;> cases spent : held.spent <;>
      simp_all [standing, Held.spent, call]

/-- Nothing is spent exactly when the vector is as long as the registrations. -/
theorem map_handler_eq_iff (history : List (Held Handler)) :
    history.map (fun held => held.handler) =
        (standing history).map (fun registration => registration.handler) ↔
      ∀ held ∈ history, held.spent = false := by
  constructor
  · intro same
    have sizes := congrArg List.length same
    simp only [standing, List.length_map] at sizes
    have kept := (List.length_filter_eq_length_iff).mp sizes.symm
    intro held member
    simpa using kept held member
  · intro fresh
    have kept : (history.filter fun held => !held.spent) = history := by
      refine List.filter_eq_self.mpr fun held member => ?_
      simp [fresh held member]
    simp [standing, kept]

end Held

section History

/-- What an operation does to the history. -/
def record (history : String → List (Held Handler)) :
    Operation Handler Arg → String → List (Held Handler)
  | .on eventName handler => Function.update history (EventsModule.key eventName)
      (history (EventsModule.key eventName) ++ [⟨⟨handler, false⟩, false⟩])
  | .once eventName handler => Function.update history (EventsModule.key eventName)
      (history (EventsModule.key eventName) ++ [⟨⟨handler, true⟩, false⟩])
  | .emit eventName _ => Function.update history (EventsModule.key eventName)
      ((history (EventsModule.key eventName)).map Held.call)
  | .removeListener eventName _ => Function.update history (EventsModule.key eventName)
      (history (EventsModule.key eventName)).tail

/-- What the vectors hold after a run. -/
def heldAfter (operations : List (Operation Handler Arg)) : String → List (Held Handler) :=
  operations.foldl record fun _ => []

/-- An operation leaves the vectors of the other names. -/
theorem record_other (history : String → List (Held Handler))
    (operation : Operation Handler Arg) (name : String)
    (other : name ≠ EventsModule.key operation.eventName) :
    record history operation name = history name := by
  cases operation <;> exact Function.update_of_ne other _ _

theorem heldAfter_append (operations : List (Operation Handler Arg))
    (operation : Operation Handler Arg) :
    heldAfter (operations ++ [operation]) = record (heldAfter operations) operation := by
  simp [heldAfter]

/-- One operation keeps the vectors the handlers of the history. -/
theorem record_listeners (history : String → List (Held Handler))
    (operation : Operation Handler Arg) (name : String) :
    (record history operation name).map (fun held => held.handler) =
      (EventsModule.step ⟨fun name => (history name).map fun held => held.handler⟩
        operation).1.listeners name := by
  rcases eq_or_ne name (EventsModule.key operation.eventName) with rfl | other
  · cases operation with
    | on eventName handler | once eventName handler =>
      simp [EventsModule.step, EventsModule.once, EventsModule.on, record, Operation.eventName]
    | emit eventName args =>
      simp [EventsModule.step, record, Operation.eventName, Held.call, Function.comp_def]
    | removeListener eventName handler =>
      simp [EventsModule.step, EventsModule.removeListener, record, Operation.eventName]
  · rw [EventsModule.step_other _ operation name other, record_other history operation name other]

/-- In every run the vectors hold the handlers of the history. -/
theorem after_listeners (operations : List (Operation Handler Arg)) (name : String) :
    (EventsModule.after operations).listeners name =
      (heldAfter operations name).map fun held => held.handler := by
  rw [EventsModule.after_listeners_of _ record record_listeners]
  rfl

end History

section Orderly

/-- Dropping the front of a vector ends one registration of the handler, or none where it has
none: the vector is empty, or has in front a standing registration of the handler, or in front a
spent one and no standing registration of the handler. -/
def DropsNamed (handler : Handler) : List (Held Handler) → Prop
  | [] => True
  | front :: later =>
    if front.spent then ∀ held ∈ later, held.spent = false → held.handler ≠ handler
    else front.handler = handler

/-- An emit meets nothing spent, and a removal drops what it names. -/
def Suits (history : String → List (Held Handler)) : Operation Handler Arg → Prop
  | .on _ _ | .once _ _ => True
  | .emit eventName _ => ∀ held ∈ history (EventsModule.key eventName), held.spent = false
  | .removeListener eventName handler => DropsNamed handler (history (EventsModule.key eventName))

/-- No two event names of the run agree before a U+0000 and differ behind it. -/
def NamesApart (operations : List (Operation Handler Arg)) : Prop :=
  ∀ operation ∈ operations, ∀ other ∈ operations,
    EventsModule.key operation.eventName = EventsModule.key other.eventName →
      operation.eventName = other.eventName

structure Orderly (operations : List (Operation Handler Arg)) : Prop where
  names : NamesApart operations
  steps : ∀ before operation later, operations = before ++ operation :: later →
    Suits (heldAfter before) operation

theorem Orderly.front {operations more : List (Operation Handler Arg)}
    (orderly : Orderly (operations ++ more)) : Orderly operations where
  names := fun operation member other memberOther =>
    orderly.names operation (List.mem_append_left _ member) other
      (List.mem_append_left _ memberOther)
  steps := by
    intro before operation later same
    refine orderly.steps before operation (later ++ more) ?_
    rw [same, List.append_assoc, List.cons_append]

variable [DecidableEq Handler]

theorem registered_append (operations : List (Operation Handler Arg))
    (operation : Operation Handler Arg) :
    registered (operations ++ [operation]) = register (registered operations) operation := by
  simp [registered]

/-- Dropping the front is the removal of the registration that is named. -/
theorem standing_tail (history : List (Held Handler)) (handler : Handler)
    (drops : DropsNamed handler history) :
    Held.standing history.tail =
      (Held.standing history).eraseP fun registration => registration.handler = handler := by
  cases history with
  | nil => rfl
  | cons front later =>
    cases spent : front.spent with
    | false =>
      simp only [DropsNamed, spent, Bool.false_eq_true, if_false] at drops
      simp [Held.standing, spent, drops]
    | true =>
      simp only [DropsNamed, spent, if_true] at drops
      have absent : ∀ registration ∈ Held.standing later, registration.handler ≠ handler := by
        intro registration member
        simp only [Held.standing, List.mem_map, List.mem_filter] at member
        obtain ⟨held, ⟨inside, fresh⟩, rfl⟩ := member
        exact drops held inside (by simpa using fresh)
      have kept : Held.standing (front :: later) = Held.standing later := by
        simp [Held.standing, spent]
      rw [kept, List.tail_cons, List.eraseP_of_forall_not]
      simpa using absent

/-- What a suiting operation on an event does to its registrations, it does to what stands in
the history. -/
theorem standing_record (history : String → List (Held Handler))
    (registrations : String → List (Registration Handler)) (operation : Operation Handler Arg)
    (suits : Suits history operation)
    (stands : registrations operation.eventName =
      Held.standing (history (EventsModule.key operation.eventName))) :
    register registrations operation operation.eventName =
      Held.standing (record history operation (EventsModule.key operation.eventName)) := by
  cases operation with
  | on eventName handler | once eventName handler =>
    simp only [Operation.eventName] at stands ⊢
    simp [register, record, stands, Held.standing_append, Held.spent]
  | emit eventName args =>
    simp only [Operation.eventName] at stands ⊢
    simp [register, record, stands, Held.standing_map_call]
  | removeListener eventName handler =>
    simp only [Operation.eventName] at stands ⊢
    simp only [register, record, Function.update_self, stands]
    exact (standing_tail _ handler suits).symm

/-- An operation leaves the registrations of the other events. -/
theorem register_other (registrations : String → List (Registration Handler))
    (operation : Operation Handler Arg) (eventName : String)
    (other : eventName ≠ operation.eventName) :
    register registrations operation eventName = registrations eventName := by
  cases operation <;> exact Function.update_of_ne other _ _

/-- In an orderly run the registrations of an event are what stands in its history. The event
need not occur in the run, as long as no event of the run shares its vector. -/
theorem registered_eq_standing (operations : List (Operation Handler Arg))
    (orderly : Orderly operations) (eventName : String)
    (apart : ∀ operation ∈ operations,
      EventsModule.key operation.eventName = EventsModule.key eventName →
        operation.eventName = eventName) :
    registered operations eventName =
      Held.standing (heldAfter operations (EventsModule.key eventName)) := by
  induction operations using List.reverseRecOn with
  | nil => rfl
  | append_singleton operations operation ih =>
    have stands := ih orderly.front fun other member => apart other (List.mem_append_left _ member)
    rw [registered_append, heldAfter_append]
    rcases eq_or_ne eventName operation.eventName with rfl | other
    · exact standing_record _ _ _ (orderly.steps operations operation [] rfl) stands
    · have otherKey : EventsModule.key eventName ≠ EventsModule.key operation.eventName :=
        fun sameKey => other (apart operation (by simp) sameKey.symm).symm
      rw [register_other _ _ _ other, record_other _ _ _ otherKey, stands]

/-- After an orderly run, an emit calls what is registered exactly when it suits. -/
theorem emit_eq_iff (operations : List (Operation Handler Arg)) (orderly : Orderly operations)
    (eventName : String) (args : List Arg)
    (apart : ∀ operation ∈ operations,
      EventsModule.key operation.eventName = EventsModule.key eventName →
        operation.eventName = eventName) :
    EventsModule.emit (EventsModule.after operations) eventName args =
        (registered operations eventName).map (fun registration => (registration.handler, args)) ↔
      Suits (heldAfter operations) (.emit eventName args) := by
  have pairs : Function.Injective fun handler : Handler => (handler, args) :=
    fun _ _ same => (Prod.mk.inj same).1
  rw [registered_eq_standing operations orderly eventName apart, EventsModule.emit,
    after_listeners, Suits, ← Held.map_handler_eq_iff, ← (List.map_injective_iff.mpr pairs).eq_iff]
  simp only [List.map_map, Function.comp_def]

/-- Every run whose operations all suit what the vectors hold fires as registered. -/
theorem firesAsRegistered_of_orderly (operations : List (Operation Handler Arg))
    (orderly : Orderly operations) : FiresAsRegistered operations := by
  intro before eventName args later same
  subst same
  refine (emit_eq_iff before orderly.front eventName args ?_).mpr ?_
  · intro operation member sameKey
    exact orderly.names operation (List.mem_append_left _ member) (.emit eventName args)
      (by simp) sameKey
  · exact orderly.steps before (.emit eventName args) later rfl

end Orderly

section Runs

/-- A property of every place in a list, place by place. -/
theorem forall_split_iff {α : Type*} (entries : List α) (holds : List α → α → Prop) :
    (∀ before entry later, entries = before ++ entry :: later → holds before entry) ↔
      ∀ i, (inside : i < entries.length) → holds (entries.take i) entries[i] := by
  constructor
  · intro every i inside
    refine every (entries.take i) entries[i] (entries.drop (i + 1)) ?_
    rw [List.getElem_cons_drop, List.take_append_drop]
  · rintro every before entry later rfl
    have inside : before.length < (before ++ entry :: later).length := by simp
    simpa using every before.length inside

variable [DecidableEq Handler]

instance (handler : Handler) : (vector : List (Held Handler)) →
    Decidable (DropsNamed handler vector)
  | [] => inferInstanceAs (Decidable True)
  | front :: later => inferInstanceAs (Decidable
      (if front.spent then ∀ held ∈ later, held.spent = false → held.handler ≠ handler
        else front.handler = handler))

instance (history : String → List (Held Handler)) :
    (operation : Operation Handler Arg) → Decidable (Suits history operation)
  | .on _ _ | .once _ _ => inferInstanceAs (Decidable True)
  | .emit eventName _ => inferInstanceAs (Decidable
      (∀ held ∈ history (EventsModule.key eventName), held.spent = false))
  | .removeListener eventName handler => inferInstanceAs (Decidable
      (DropsNamed handler (history (EventsModule.key eventName))))

instance (operations : List (Operation Handler Arg)) : Decidable (NamesApart operations) :=
  inferInstanceAs (Decidable (∀ operation ∈ operations, ∀ other ∈ operations,
    EventsModule.key operation.eventName = EventsModule.key other.eventName →
      operation.eventName = other.eventName))

instance (operations : List (Operation Handler Arg)) : Decidable (Orderly operations) :=
  decidable_of_iff
    (NamesApart operations ∧ ∀ i, (inside : i < operations.length) →
      Suits (heldAfter (operations.take i)) operations[i])
    ⟨fun ⟨names, steps⟩ => ⟨names, (forall_split_iff operations _).mpr steps⟩,
      fun orderly => ⟨orderly.names, (forall_split_iff operations _).mp orderly.steps⟩⟩

/-- Two listeners and one `once` listener, which is removed before the next emit. -/
theorem firesAsRegistered_example :
    FiresAsRegistered ([.once "data" 1, .on "data" 2, .on "end" 3, .emit "data" [7],
      .removeListener "data" 1, .emit "data" [8], .emit "end" [], .removeListener "end" 3,
      .emit "end" [], .removeListener "data" 2] : List (Operation ℕ ℕ)) :=
  firesAsRegistered_of_orderly _ (by decide)

/-- A `once` handler is called by the second emit too. -/
theorem not_firesAsRegistered_once :
    ¬FiresAsRegistered
      ([.once "data" 1, .emit "data" [7], .emit "data" [8]] : List (Operation ℕ ℕ)) := by
  intro fires
  have second := fires [.once "data" 1, .emit "data" [7]] "data" [8] [] rfl
  revert second
  decide

end Runs

end ProtoJS.Events
