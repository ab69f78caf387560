import ProtoJS.Events.EventEmitter

/-! # Emitting while handlers change the listeners

`emit` goes through the vector of the event itself, with iterators for its beginning and its end.
A handler that calls `on`, `once` or `removeListener` for the event changes the vector under the
loop: `push_back` invalidates at least the iterator at the end and `erase` at the beginning both,
and to use one of these is undefined behaviour.
-/

namespace ProtoJS.Events

variable {Handler Arg World : Type*}

/-- What called handlers do: the operations on the emitter that are performed until a handler
returns, by itself or by what it calls, and the world that it leaves. -/
abbrev Behaviour (Handler Arg World : Type*) :=
  Handler → List Arg → Emitter Handler → World → List (Operation Handler Arg) × World

/-- The state of a loop over a vector, and whether its iterators are valid. -/
structure Iteration (Handler World : Type*) where
  emitter : Emitter Handler
  world : World
  valid : Bool

namespace EventsModule

/-- The operation changes the vector of the name. -/
def changes (emitter : Emitter Handler) (name : String) : Operation Handler Arg → Bool
  | .on eventName _ | .once eventName _ => key eventName = name
  | .emit _ _ => false
  | .removeListener eventName _ =>
    key eventName = name && !(emitter.listeners name).isEmpty

/-- The emitter after some operations. -/
def stepAll (emitter : Emitter Handler) (operations : List (Operation Handler Arg)) :
    Emitter Handler :=
  operations.foldl (fun emitter operation => (step emitter operation).1) emitter

/-- The operation while a loop goes through the vector of the name. -/
def perform (name : String) (iteration : Iteration Handler World)
    (operation : Operation Handler Arg) : Iteration Handler World :=
  { iteration with
    emitter := (step iteration.emitter operation).1
    valid := iteration.valid && !changes iteration.emitter name operation }

/-- `JS_Call`. -/
def callHandler (behaviour : Behaviour Handler Arg World) (name : String) (args : List Arg)
    (iteration : Iteration Handler World) (handler : Handler) : Iteration Handler World :=
  let (operations, world) := behaviour handler args iteration.emitter iteration.world
  { operations.foldl (perform name) iteration with world }

/-- The rest of the loop, from a position on. The iterator at the end is compared before every
turn and behind the last one; there is no result where that is undefined. -/
def emitLoop (behaviour : Behaviour Handler Arg World) (name : String) (args : List Arg) :
    ℕ → ℕ → Iteration Handler World → Option (List (Handler × List Arg) × Iteration Handler World)
  | 0, _, iteration => if iteration.valid then some ([], iteration) else none
  | turns + 1, position, iteration =>
    if iteration.valid then
      (iteration.emitter.listeners name)[position]?.bind fun handler =>
        (emitLoop behaviour name args turns (position + 1)
          (callHandler behaviour name args iteration handler)).map fun (calls, final) =>
            ((handler, args) :: calls, final)
    else none

/-- `EventsModule::emit`, with the handlers at work. -/
def emitLive (behaviour : Behaviour Handler Arg World) (emitter : Emitter Handler) (world : World)
    (eventName : String) (args : List Arg) :
    Option (List (Handler × List Arg) × Iteration Handler World) :=
  emitLoop behaviour (key eventName) args (emitter.listeners (key eventName)).length 0
    ⟨emitter, world, true⟩

/-- The listeners there are at the beginning are called, once each and in order. -/
def Stable (behaviour : Behaviour Handler Arg World) (emitter : Emitter Handler) (world : World)
    (eventName : String) (args : List Arg) : Prop :=
  ∃ final, emitLive behaviour emitter world eventName args =
    some (emit emitter eventName args, final)

/-- The operation is a registration or a removal for an event of the name. -/
def Touches (name : String) : Operation Handler Arg → Prop
  | .on eventName _ | .once eventName _ | .removeListener eventName _ => key eventName = name
  | .emit _ _ => False

/-- None of the handlers touches the vector of the name when they are called one after another. -/
def Undisturbed (behaviour : Behaviour Handler Arg World) (name : String) (args : List Arg) :
    List Handler → Emitter Handler → World → Prop
  | [], _, _ => True
  | handler :: later, emitter, world =>
    (∀ operation ∈ (behaviour handler args emitter world).1, ¬Touches name operation) ∧
      Undisturbed behaviour name args later
        (stepAll emitter (behaviour handler args emitter world).1)
        (behaviour handler args emitter world).2

section Operations

variable {name : String} {iteration : Iteration Handler World}
  {operation : Operation Handler Arg} {operations : List (Operation Handler Arg)}

theorem listeners_step (emitter : Emitter Handler) (apart : ¬Touches name operation) :
    (step emitter operation).1.listeners name = emitter.listeners name := by
  cases operation with
  | emit eventName args => rfl
  | on eventName handler | once eventName handler | removeListener eventName handler =>
    exact step_other _ _ _ fun same => apart same.symm

theorem changes_iff {emitter : Emitter Handler} (present : emitter.listeners name ≠ []) :
    changes emitter name operation = true ↔ Touches name operation := by
  cases operation <;> simp [changes, Touches, present]

theorem listeners_stepAll (emitter : Emitter Handler)
    (apart : ∀ operation ∈ operations, ¬Touches name operation) :
    (stepAll emitter operations).listeners name = emitter.listeners name := by
  induction operations generalizing emitter with
  | nil => rfl
  | cons operation operations ih =>
    rw [List.forall_mem_cons] at apart
    exact (ih _ apart.2).trans (listeners_step emitter apart.1)

theorem emitter_foldl_perform :
    (operations.foldl (perform name) iteration).emitter = stepAll iteration.emitter operations := by
  induction operations generalizing iteration with
  | nil => rfl
  | cons operation operations ih => exact ih

/-- An iterator that is invalid stays so. -/
theorem valid_of_valid_foldl_perform
    (valid : (operations.foldl (perform name) iteration).valid = true) :
    iteration.valid = true := by
  induction operations generalizing iteration with
  | nil => exact valid
  | cons operation operations ih => exact (Bool.and_eq_true_iff.1 (ih valid)).1

/-- While there are listeners, the iterators stay valid when nothing touches the vector. -/
theorem valid_foldl_perform_iff (present : iteration.emitter.listeners name ≠ [])
    (valid : iteration.valid = true) :
    (operations.foldl (perform name) iteration).valid = true ↔
      ∀ operation ∈ operations, ¬Touches name operation := by
  induction operations generalizing iteration with
  | nil => simp [valid]
  | cons operation operations ih =>
    have first : (perform name iteration operation).valid = true ↔ ¬Touches name operation := by
      rw [perform, valid, Bool.true_and, Bool.not_eq_true', ← Bool.not_eq_true,
        changes_iff present]
    rw [List.foldl_cons, List.forall_mem_cons]
    constructor
    · intro kept
      have apart := first.1 (valid_of_valid_foldl_perform kept)
      have same := listeners_step iteration.emitter apart
      refine ⟨apart, ?_⟩
      exact (@ih (perform name iteration operation) (same ▸ present) (first.2 apart)).1 kept
    · rintro ⟨apart, others⟩
      have same := listeners_step iteration.emitter apart
      exact (@ih (perform name iteration operation) (same ▸ present) (first.2 apart)).2 others

end Operations

section Loop

variable {behaviour : Behaviour Handler Arg World} {name : String} {args : List Arg}

theorem emitter_callHandler (iteration : Iteration Handler World) (handler : Handler) :
    (callHandler behaviour name args iteration handler).emitter = stepAll iteration.emitter
      (behaviour handler args iteration.emitter iteration.world).1 :=
  emitter_foldl_perform

theorem valid_callHandler_iff {iteration : Iteration Handler World} (handler : Handler)
    (present : iteration.emitter.listeners name ≠ []) (valid : iteration.valid = true) :
    (callHandler behaviour name args iteration handler).valid = true ↔
      ∀ operation ∈ (behaviour handler args iteration.emitter iteration.world).1,
        ¬Touches name operation :=
  valid_foldl_perform_iff present valid

theorem emitLoop_of_invalid {iteration : Iteration Handler World}
    (invalid : ¬iteration.valid = true) (turns position : ℕ) :
    emitLoop behaviour name args turns position iteration = none := by
  cases turns with
  | zero => rw [emitLoop, if_neg invalid]
  | succ turns => rw [emitLoop, if_neg invalid]

/-- Where the iterators are valid, the rest of the loop calls the handlers that are left exactly
when none of them touches the vector. -/
theorem emitLoop_iff (before later : List Handler) (iteration : Iteration Handler World)
    (valid : iteration.valid = true) (split : iteration.emitter.listeners name = before ++ later) :
    (∃ final, emitLoop behaviour name args later.length before.length iteration =
        some (later.map fun handler => (handler, args), final)) ↔
      Undisturbed behaviour name args later iteration.emitter iteration.world := by
  induction later generalizing before iteration with
  | nil => simp [emitLoop, valid, Undisturbed]
  | cons handler later ih =>
    have found : (iteration.emitter.listeners name)[before.length]? = some handler := by
      simp [split]
    have present : iteration.emitter.listeners name ≠ [] := by simp [split]
    have kept := @valid_callHandler_iff _ _ _ behaviour name args iteration handler present valid
    rw [List.length_cons, emitLoop, if_pos valid, found, Option.bind_some, Undisturbed]
    by_cases apart : ∀ operation ∈ (behaviour handler args iteration.emitter iteration.world).1,
        ¬Touches name operation
    · -- the vector is the same, one position further
      have rest := ih (before ++ [handler]) (callHandler behaviour name args iteration handler)
        (kept.2 apart) (by rw [emitter_callHandler, listeners_stepAll _ apart, split]; simp)
      rw [List.length_append, List.length_singleton, emitter_callHandler] at rest
      rw [and_iff_right apart]
      refine Iff.trans (exists_congr fun final => ?_) rest
      rcases emitLoop behaviour name args later.length (before.length + 1)
        (callHandler behaviour name args iteration handler) with _ | ⟨calls, last⟩
      · simp
      · simp
    · rw [emitLoop_of_invalid (mt kept.1 apart)]
      simp [apart]

end Loop

/-- An emit calls the listeners there are at its beginning, once each and in order, exactly when
no handler registers or removes a listener for the event while it is called. -/
theorem stable_iff (behaviour : Behaviour Handler Arg World) (emitter : Emitter Handler)
    (world : World) (eventName : String) (args : List Arg) :
    Stable behaviour emitter world eventName args ↔
      Undisturbed behaviour (key eventName) args (emitter.listeners (key eventName)) emitter
        world :=
  emitLoop_iff [] _ _ rfl rfl

/-- The handler 1 removes a listener of `data`. -/
def removing : Behaviour ℕ ℕ Unit := fun handler _ _ _ =>
  (if handler = 1 then [.removeListener "data" 1] else [], ())

/-- Three listeners. -/
def three : Emitter ℕ := on (on (on {} "data" 1) "data" 2) "data" 3

/-- The first one removes itself. -/
theorem not_stable_removing : ¬Stable removing three () "data" [7] := by
  intro stable
  have listeners : three.listeners (key "data") = [1, 2, 3] := by decide
  have undisturbed : Undisturbed removing (key "data") [7] (three.listeners (key "data")) three
      () :=
    (emitLoop_iff [] _ ⟨three, (), true⟩ rfl rfl).1 stable
  rw [listeners] at undisturbed
  exact undisturbed.1 (.removeListener "data" 1) (List.mem_singleton_self _) rfl

end EventsModule

end ProtoJS.Events
