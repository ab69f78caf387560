import ProtoJS.Machine.Run
import ProtoJS.Strings.Extraction

/-! # Messages to a worker

`workerPostMessage` enqueues a delivery on the event loop if the worker thread has published its
context, and drops the message otherwise. The thread publishes it at some point of its start-up;
the message queue in the worker's data is used by nobody.
-/

namespace ProtoJS.Workers

open Strings

/-- Where the worker thread stands in `workerThreadExecution`. -/
inductive WorkerPc
  | starting
  | runtimeCreated
  | contextCreated
  | runtimePublished
  | contextPublished
  | evaluating
  | exiting
  | ended
deriving DecidableEq, Repr

/-- What is enqueued on the event loop. -/
inductive Callback (μ : Type*)
  /-- The callback of `workerPostMessage`. -/
  | delivery (message : μ)
  /-- The callback of `sendMessageToMain`. -/
  | messageToMain (message : μ)
  | error (text : Text)
  | exit
  /-- A callback that has nothing to do with the worker. -/
  | other
deriving DecidableEq, Repr

variable {μ : Type*}

/-- The message a callback delivers to the worker. -/
def Callback.delivered : Callback μ → Option μ
  | .delivery message => some message
  | _ => none

/-- `WorkerThreadData` and the worker thread, with what has been enqueued on the event loop, in
order, and the messages that were posted while the worker was running. -/
structure State (μ : Type*) where
  pc : WorkerPc := .starting
  workerRuntime : Bool := false
  workerContext : Bool := false
  messageQueue : List μ := []
  terminated : Bool := false
  running : Bool := true
  enqueued : List (Callback μ) := []
  posted : List μ := []
deriving DecidableEq, Repr

namespace State

def enqueueCallback (s : State μ) (callback : Callback μ) : State μ :=
  { s with enqueued := s.enqueued ++ [callback] }

/-- The messages delivered, in order. -/
def deliveries (s : State μ) : List μ := s.enqueued.filterMap Callback.delivered

/-- What the call returns or throws, and the state; without a message it throws. -/
def workerPostMessage (s : State μ) : Option μ → Except String Unit × State μ
  | none => (.error "postMessage expects a message", s)
  | some message =>
    if s.running then
      let s := { s with posted := s.posted ++ [message] }
      (.ok (), if s.workerContext then s.enqueueCallback (.delivery message) else s)
    else (.ok (), s)

end State

inductive Action (μ : Type*)
  | postMessage (argument : Option μ)
  | terminate
  /-- `JS_NewRuntime`, which may fail, and so on along `workerThreadExecution`. -/
  | createRuntime (created : Bool)
  | createContext (created : Bool)
  | publishRuntime
  | publishContext
  | openFile (opened : Bool)
  /-- The script posts a message to the main thread. -/
  | sendMessageToMain (message : μ)
  /-- `JS_Eval` returns, with the text of an exception. -/
  | evaluated (exception : Option Text)
  | exit
  /-- Someone else enqueues a callback. -/
  | other
deriving DecidableEq, Repr

def Enabled (s : State μ) : Action μ → Prop
  | .postMessage _ | .terminate | .other => True
  | .createRuntime _ => s.pc = .starting
  | .createContext _ => s.pc = .runtimeCreated
  | .publishRuntime => s.pc = .contextCreated
  | .publishContext => s.pc = .runtimePublished
  | .openFile _ => s.pc = .contextPublished
  | .sendMessageToMain _ | .evaluated _ => s.pc = .evaluating
  | .exit => s.pc = .exiting

def next (filename : Text) (s : State μ) : Action μ → State μ
  | .postMessage argument => (s.workerPostMessage argument).2
  | .terminate => { s with terminated := true, running := false }
  | .createRuntime true => { s with pc := .runtimeCreated }
  | .createRuntime false =>
    { s with pc := .ended }.enqueueCallback (.error "Failed to create worker runtime".toList)
  | .createContext true => { s with pc := .contextCreated }
  | .createContext false =>
    { s with pc := .ended }.enqueueCallback (.error "Failed to create worker context".toList)
  | .publishRuntime => { s with pc := .runtimePublished, workerRuntime := true }
  | .publishContext => { s with pc := .contextPublished, workerContext := true }
  | .openFile true => { s with pc := .evaluating }
  | .openFile false =>
    { s with pc := .ended }.enqueueCallback (.error ("Cannot open file: ".toList ++ filename))
  | .sendMessageToMain message => s.enqueueCallback (.messageToMain message)
  | .evaluated none => { s with pc := .exiting }
  | .evaluated (some text) => { s with pc := .exiting }.enqueueCallback (.error text)
  | .exit => { s with pc := .ended }.enqueueCallback .exit
  | .other => s.enqueueCallback .other

/-- A worker that is started for a script, and the threads that use it. -/
def worker (μ : Type*) (filename : Text) : Machine (State μ) (Action μ) where
  initial := {}
  Enabled := Enabled
  next := next filename

variable {filename : Text} {s t : State μ} {a : Action μ} {as : List (Action μ)}

/-! ### What one step does to the messages -/

@[simp] theorem deliveries_enqueueCallback (s : State μ) (callback : Callback μ) :
    (s.enqueueCallback callback).deliveries = s.deliveries ++ callback.delivered.toList := by
  cases callback <;> simp [State.deliveries, State.enqueueCallback, Callback.delivered]

/-- The message that an action posts to a running worker. -/
def posts (s : State μ) : Action μ → List μ
  | .postMessage (some message) => if s.running then [message] else []
  | _ => []

theorem posts_ne_nil_iff :
    posts s a ≠ [] ↔ ∃ message, a = .postMessage (some message) ∧ s.running = true := by
  rcases a with (_ | message) | _
  case postMessage.some => simp [posts]
  all_goals simp [posts]

theorem posted_next : (next filename s a).posted = s.posted ++ posts s a := by
  rcases a with
    (_ | message) | _ | (_ | _) | (_ | _) | _ | _ | (_ | _) | message | (_ | text) | _ | _
  case postMessage.some =>
    simp only [next, State.workerPostMessage, posts]
    cases s.running with
    | false => simp
    | true => cases s.workerContext <;> rfl
  all_goals exact (List.append_nil _).symm

/-- A message posted to a running worker is delivered if the worker has published its context, and
nothing else is. -/
theorem deliveries_next : (next filename s a).deliveries =
    s.deliveries ++ if s.workerContext then posts s a else [] := by
  rcases a with
    (_ | message) | _ | (_ | _) | (_ | _) | _ | _ | (_ | _) | message | (_ | text) | _ | _
  case postMessage.some =>
    simp only [next, State.workerPostMessage, posts]
    cases s.running with
    | false => simp
    | true =>
      cases s.workerContext with
      | false => exact (List.append_nil _).symm
      | true => exact deliveries_enqueueCallback ..
  all_goals
    simp [next, posts, State.workerPostMessage, State.deliveries, State.enqueueCallback,
      Callback.delivered]

theorem workerContext_next :
    (next filename s a).workerContext = true ↔ s.workerContext = true ∨ a = .publishContext := by
  rcases a with
    (_ | message) | _ | (_ | _) | (_ | _) | _ | _ | (_ | _) | message | (_ | text) | _ | _
  case postMessage.some =>
    simp only [next, State.workerPostMessage]
    split
    · split <;> simp [State.enqueueCallback]
    · simp
  all_goals simp [next, State.workerPostMessage, State.enqueueCallback]

theorem running_next : (next filename s a).running = true ↔ s.running = true ∧ a ≠ .terminate := by
  rcases a with
    (_ | message) | _ | (_ | _) | (_ | _) | _ | _ | (_ | _) | message | (_ | text) | _ | _
  case postMessage.some =>
    simp only [next, State.workerPostMessage]
    split
    · split <;> simp [State.enqueueCallback]
    · simp
  all_goals simp [next, State.workerPostMessage, State.enqueueCallback]

/-! ### What a run does to the messages -/

theorem workerContext_iff (run : (worker μ filename).Run s as t) :
    t.workerContext = true ↔ s.workerContext = true ∨ .publishContext ∈ as := by
  induction run with
  | nil => simp
  | cons _ _ ih =>
    rw [ih, worker, workerContext_next, List.mem_cons, or_assoc]
    simp only [eq_comm]

theorem running_iff (run : (worker μ filename).Run s as t) :
    t.running = true ↔ s.running = true ∧ .terminate ∉ as := by
  induction run with
  | nil => simp
  | cons _ _ ih =>
    rw [ih, worker, running_next, List.mem_cons, not_or, and_assoc]
    simp only [ne_eq, eq_comm]

theorem deliveries_sublist (reachable : (worker μ filename).Reachable s) :
    s.deliveries.Sublist s.posted := by
  apply reachable.invariant
  · exact List.Sublist.refl _
  · intro s a _ _ sublist
    rw [worker, deliveries_next, posted_next]
    refine sublist.append ?_
    split
    · exact List.Sublist.refl _
    · exact List.nil_sublist _

/-- A message is posted to a running worker only when its context has been published. -/
def Published (s : State μ) (a : Action μ) : Prop := posts s a ≠ [] → s.workerContext = true

theorem deliveries_next_iff (reachable : (worker μ filename).Reachable s) :
    (next filename s a).deliveries = (next filename s a).posted ↔
      s.deliveries = s.posted ∧ Published s a := by
  rw [deliveries_next, posted_next, Published]
  have sublist := deliveries_sublist reachable
  split
  · rename_i published
    simp [published]
  · rename_i unpublished
    rw [List.append_nil]
    constructor
    · intro same
      have short := sublist.length_le
      rw [same, List.length_append] at short
      have nothing : posts s a = [] := List.length_eq_zero_iff.mp (by omega)
      rw [nothing, List.append_nil] at same
      exact ⟨same, fun something => absurd nothing something⟩
    · rintro ⟨same, published⟩
      have nothing : posts s a = [] := by
        by_contra something
        exact unpublished (published something)
      rw [nothing, List.append_nil, same]

/-- The messages posted while the worker was running are the ones delivered, in order, if and only
if every one of them is posted after the worker has published its context. -/
theorem deliveries_eq_posted_iff
    (run : (worker μ filename).Run (worker μ filename).initial as t) :
    t.deliveries = t.posted ↔
      ∀ prior message rest, as = prior ++ .postMessage (some message) :: rest →
        .terminate ∉ prior → .publishContext ∈ prior := by
  have start : (worker μ filename).initial.deliveries = (worker μ filename).initial.posted := rfl
  have whole := run.final_iff (P := fun s : State μ => s.deliveries = s.posted) (Q := Published)
    .initial (fun s a reachable _ => deliveries_next_iff reachable)
  rw [whole, and_iff_right start, Machine.restrict_run_iff, and_iff_right run]
  constructor
  · intro published prior message rest shape working
    rw [shape, Machine.run_append_iff] at run
    obtain ⟨mid, before, _⟩ := run
    have running : mid.running = true := (running_iff before).mpr ⟨rfl, working⟩
    have context := published prior _ rest mid shape before
      (posts_ne_nil_iff.mpr ⟨message, rfl, running⟩)
    exact ((workerContext_iff before).mp context).resolve_left Bool.false_ne_true
  · intro published prior a rest mid shape before something
    obtain ⟨message, rfl, running⟩ := posts_ne_nil_iff.mp something
    have working := ((running_iff before).mp running).2
    exact (workerContext_iff before).mpr (.inr (published prior message rest shape working))

/-- The worker starts, and then a message is posted. -/
def patient : List (Action String) :=
  [.createRuntime true, .createContext true, .publishRuntime, .publishContext,
    .postMessage (some "work")]

theorem deliveries_eq_posted_patient :
    (patient.foldl (next []) {}).deliveries = ["work"] ∧
      ∀ prior message rest, patient = prior ++ .postMessage (some message) :: rest →
        .terminate ∉ prior → .publishContext ∈ prior := by
  have run : (worker String []).Run (worker String []).initial patient
      (patient.foldl (next []) {}) :=
    .cons rfl <| .cons rfl <| .cons rfl <| .cons rfl <| .cons trivial <| .nil _
  exact ⟨by decide, (deliveries_eq_posted_iff run).mp (by decide)⟩

/-- A message that is posted right after the constructor has returned is dropped. -/
theorem not_delivered_early :
    ¬ ∀ as t, (worker String []).Run (worker String []).initial as t →
      t.deliveries = t.posted := by
  intro delivered
  have run : (worker String []).Run (worker String []).initial [.postMessage (some "work")] _ :=
    .single trivial
  exact absurd (delivered _ _ run) (by decide)

end ProtoJS.Workers
