import ProtoJS.Machine.Refinement
import ProtoJS.Machine.Channel

/-! # The event loop

`enqueueCallback` pushes under the lock from any thread, a callback that is running included.
`processCallbacks` swaps the queue out under the lock and runs the batch outside it, reporting
what a callback throws and going on with the next. Calls of `processCallbacks` are not nested.
Each call of `enqueueCallback` hands over a callback of its own, so a callback also names its
push. The loop refines the exactly-once channel whose pending items are the rest of the batch
followed by the queue.
-/

namespace ProtoJS.EventLoop

/-- Where the main thread stands in `processCallbacks`. -/
inductive MainPc (κ : Type*) where
  /-- Outside of any call of `processCallbacks`. -/
  | outside
  /-- At the head of the loop over `callbacksToProcess`. -/
  | draining (callbacksToProcess : List κ)
  | calling (callback : κ) (callbacksToProcess : List κ)
deriving DecidableEq, Repr

/-- The batch that is still to be run after the present callback. -/
def MainPc.batch {κ : Type*} : MainPc κ → List κ
  | .outside => []
  | .draining callbacksToProcess | .calling _ callbacksToProcess => callbacksToProcess

/-- The callback that has been started and has not returned or thrown. -/
def MainPc.current {κ : Type*} : MainPc κ → List κ
  | .calling callback _ => [callback]
  | _ => []

structure State (κ : Type*) where
  callbackQueue : List κ := []
  main : MainPc κ := .outside
  /-- All pushes, in lock order. -/
  pushed : List κ := []
  /-- All callbacks started, in the order of their starts. -/
  started : List κ := []
  /-- Those that have returned or thrown. -/
  executed : List κ := []
  /-- Those whose exception was reported on the error stream. -/
  reported : List κ := []
deriving DecidableEq, Repr

inductive Action (κ : Type*) where
  /-- The locked region of `enqueueCallback`. -/
  | enqueueCallback (callback : κ)
  /-- The locked region of `processCallbacks`: swap the queue out. -/
  | processCallbacks
  /-- Take the front of the batch and call it. -/
  | call
  /-- The callback returns, or throws and is caught. -/
  | finish (threw : Bool)
  /-- The batch is empty: `processCallbacks` returns. -/
  | leave
deriving DecidableEq, Repr

variable {κ : Type*}

def Enabled (s : State κ) : Action κ → Prop
  | .enqueueCallback callback => callback ∉ s.pushed
  | .processCallbacks => s.main = .outside
  | .call => ∃ callback, ∃ rest, s.main = .draining (callback :: rest)
  | .finish _ => ∃ callback, ∃ rest, s.main = .calling callback rest
  | .leave => s.main = .draining []

instance [DecidableEq κ] (s : State κ) : DecidablePred (Enabled s)
  | .enqueueCallback callback => inferInstanceAs (Decidable (callback ∉ s.pushed))
  | .processCallbacks => inferInstanceAs (Decidable (s.main = .outside))
  | .call => match found : s.main with
    | .draining (callback :: rest) => isTrue ⟨callback, rest, found⟩
    | .draining [] | .outside | .calling _ _ => isFalse (by simp [Enabled, found])
  | .finish _ => match found : s.main with
    | .calling callback rest => isTrue ⟨callback, rest, found⟩
    | .draining _ | .outside => isFalse (by simp [Enabled, found])
  | .leave => inferInstanceAs (Decidable (s.main = .draining []))

def next (s : State κ) : Action κ → State κ
  | .enqueueCallback callback =>
    { s with callbackQueue := s.callbackQueue ++ [callback], pushed := s.pushed ++ [callback] }
  | .processCallbacks => { s with callbackQueue := [], main := .draining s.callbackQueue }
  | .call => match s.main with
    | .draining (callback :: rest) =>
      { s with main := .calling callback rest, started := s.started ++ [callback] }
    | _ => s
  | .finish threw => match s.main with
    | .calling callback rest =>
      { s with
        main := .draining rest
        executed := s.executed ++ [callback]
        reported := if threw then s.reported ++ [callback] else s.reported }
    | _ => s
  | .leave => { s with main := .outside }

/-- The callbacks that have left the queue, in order: executed, running, or in the batch. -/
def State.swappedOut (s : State κ) : List κ := s.executed ++ s.main.current ++ s.main.batch

/-- `hasPendingCallbacks`: what the queue holds, the batch being drained left aside. -/
def State.hasPendingCallbacks (s : State κ) : Bool := !s.callbackQueue.isEmpty

/-- The event loop, empty and outside of `processCallbacks` at first. -/
def loop (κ : Type*) : Machine (State κ) (Action κ) where
  initial := {}
  Enabled := Enabled
  next := next

instance [DecidableEq κ] (s : State κ) (a : Action κ) : Decidable ((loop κ).Enabled s a) :=
  inferInstanceAs (Decidable (Enabled s a))

variable {s t : State κ} {a : Action κ} {as : List (Action κ)} {callback : κ}

/-- The channel a state of the loop stands for. -/
def toChannel (s : State κ) : Channel.State κ where
  sent := s.pushed
  delivered := s.started
  pending := s.main.batch ++ s.callbackQueue

def toChannelActions : Action κ → List (Channel.Action κ)
  | .enqueueCallback callback => [.send callback]
  | .call => [.deliver]
  | _ => []

private theorem toChannel_next (enabled : Enabled s a) :
    (Channel.machine κ).Run (toChannel s) (toChannelActions a) (toChannel (next s a)) := by
  cases a with
  | enqueueCallback callback =>
    have sent : toChannel (next s (.enqueueCallback callback)) =
        Channel.next (toChannel s) (.send callback) := by
      simp [toChannel, next, Channel.next]
    rw [sent]
    exact .single (m := Channel.machine κ) (a := Channel.Action.send callback) ⟨rfl, enabled⟩
  | processCallbacks =>
    have swapped : toChannel (next s .processCallbacks) = toChannel s := by
      simp [toChannel, next, show s.main = .outside from enabled, MainPc.batch]
    rw [swapped]
    exact .nil _
  | call =>
    obtain ⟨callback, rest, there⟩ := enabled
    have delivered : toChannel (next s .call) = Channel.next (toChannel s) .deliver := by
      simp [toChannel, next, Channel.next, there, MainPc.batch]
    rw [delivered]
    refine .single (m := Channel.machine κ) (a := Channel.Action.deliver) ?_
    simp [Channel.machine, Channel.Enabled, toChannel, there, MainPc.batch]
  | finish threw =>
    obtain ⟨callback, rest, there⟩ := enabled
    have kept : toChannel (next s (.finish threw)) = toChannel s := by
      simp [toChannel, next, there, MainPc.batch]
    rw [kept]
    exact .nil _
  | leave =>
    have kept : toChannel (next s .leave) = toChannel s := by
      simp [toChannel, next, show s.main = .draining [] from enabled, MainPc.batch]
    rw [kept]
    exact .nil _

/-- The event loop refines the exactly-once channel. -/
def channelRefinement (κ : Type*) : (loop κ).Refinement (Channel.machine κ) where
  abs := toChannel
  emits _ a := toChannelActions a
  initial := rfl
  step _ _ _ enabled := toChannel_next enabled

theorem ledger (reachable : (loop κ).Reachable s) : Channel.Ledger (toChannel s) :=
  Channel.ledger ((channelRefinement κ).reachable reachable)

/-- All started callbacks have been executed but the one that is running. -/
theorem started_eq (reachable : (loop κ).Reachable s) :
    s.started = s.executed ++ s.main.current := by
  refine reachable.invariant (P := fun s => s.started = s.executed ++ s.main.current) rfl ?_
  intro s a _ enabled started
  cases a with
  | enqueueCallback callback => exact started
  | processCallbacks =>
    rw [show s.main = .outside from enabled] at started
    exact started
  | call =>
    obtain ⟨callback, rest, there⟩ := enabled
    rw [there] at started
    simp [loop, next, there, started, MainPc.current]
  | finish threw =>
    obtain ⟨callback, rest, there⟩ := enabled
    rw [there] at started
    simp [loop, next, there, started, MainPc.current]
  | leave =>
    rw [show s.main = .draining [] from enabled] at started
    exact started

/-- Only a push changes what has been pushed. -/
theorem pushed_next (quiet : ∀ callback, a ≠ .enqueueCallback callback) :
    (next s a).pushed = s.pushed := by
  cases a with
  | enqueueCallback callback => exact (quiet callback rfl).elim
  | call | finish => simp only [next]; split <;> rfl
  | processCallbacks | leave => rfl

/-- The swap hands over everything that has been pushed until then. -/
theorem swappedOut_processCallbacks (reachable : (loop κ).Reachable s)
    (outside : s.main = .outside) : (next s .processCallbacks).swappedOut = s.pushed := by
  have accounts := (ledger reachable).accounts
  have started := started_eq reachable
  rw [outside] at started
  simp only [toChannel, outside, started, MainPc.current, MainPc.batch, List.append_nil,
    List.nil_append] at accounts
  simpa [State.swappedOut, next, MainPc.current, MainPc.batch] using accounts.symm

/-- No other step changes what has left the queue. -/
theorem swappedOut_next (enabled : Enabled s a) (other : a ≠ .processCallbacks) :
    (next s a).swappedOut = s.swappedOut := by
  cases a with
  | enqueueCallback callback => rfl
  | processCallbacks => exact (other rfl).elim
  | call =>
    obtain ⟨callback, rest, there⟩ := enabled
    simp [State.swappedOut, next, there, MainPc.current, MainPc.batch]
  | finish threw =>
    obtain ⟨callback, rest, there⟩ := enabled
    simp [State.swappedOut, next, there, MainPc.current, MainPc.batch]
  | leave =>
    simp [State.swappedOut, next, show s.main = .draining [] from enabled, MainPc.current,
      MainPc.batch]

private theorem callbackQueue_next (quiet : ∀ callback, a ≠ .enqueueCallback callback)
    (empty : s.callbackQueue = []) : (next s a).callbackQueue = [] := by
  cases a with
  | enqueueCallback callback => exact (quiet callback rfl).elim
  | processCallbacks => rfl
  | call => simp only [next]; split <;> exact empty
  | finish threw => simp only [next]; split <;> exact empty
  | leave => exact empty

/-- A call of `processCallbacks` that no push disturbs has executed everything when it returns. -/
theorem executed_of_returned (reachable : (loop κ).Reachable s) (outside : s.main = .outside)
    (run : (loop κ).Run (next s .processCallbacks) as t)
    (quiet : ∀ callback, .enqueueCallback callback ∉ as) (returned : t.main = .outside) :
    t.executed = t.pushed := by
  have later : (loop κ).Reachable t := (reachable.next (a := Action.processCallbacks) outside).run run
  have empty : t.callbackQueue = [] :=
    run.preserves_of (P := fun s => s.callbackQueue = [])
      (Q := fun a => ∀ callback, a ≠ .enqueueCallback callback) rfl
      (fun a member callback same => quiet callback (same ▸ member))
      (fun _ _ _ quiet empty => callbackQueue_next quiet empty)
  have all : t.started = t.pushed := by
    apply (ledger later).delivered_all rfl
    simp [toChannel, returned, empty, MainPc.batch]
  rw [← all, started_eq later, returned]
  exact (List.append_nil _).symm

/-- The event loop loses, duplicates and reorders nothing. -/
theorem executes_in_order (κ : Type*) :
    (∀ s, (loop κ).Reachable s → s.started <+: s.pushed ∧ s.started.Nodup) ∧
    ∀ s as t, (loop κ).Reachable s → s.main = .outside →
      (loop κ).Run s (.processCallbacks :: as) t →
      (∀ callback, .enqueueCallback callback ∉ as) → t.main = .outside →
      t.executed = t.pushed := by
  constructor
  · intro s reachable
    exact ⟨(ledger reachable).delivered_isPrefix, (ledger reachable).delivered_nodup⟩
  · intro s as t reachable outside run quiet returned
    exact executed_of_returned reachable outside (Machine.run_cons_iff.mp run).2 quiet returned

/-- Callback 0 enqueues callback 2 and throws; two calls of `processCallbacks` run all three. -/
def reentrantRun : List (Action ℕ) :=
  [.enqueueCallback 0, .enqueueCallback 1, .processCallbacks, .call, .enqueueCallback 2,
    .finish true, .call, .finish false, .leave]

theorem executes_in_order_reentrant : ∃ s, (loop ℕ).Run {} reentrantRun s ∧ ∃ t,
    (loop ℕ).Run s [.processCallbacks, .call, .finish false, .leave] t ∧ t.pushed = [0, 1, 2] ∧
      t.executed = t.pushed := by
  obtain ⟨s, run, outside, second⟩ := (loop ℕ).exists_run_of_replay {} reentrantRun
    (fun s => s.main = .outside ∧ (((loop ℕ).replay s [.processCallbacks, .call,
      .finish false, .leave]).any fun t => decide (t.pushed = [0, 1, 2] ∧ t.main = .outside)) = true)
    (by decide)
  obtain ⟨t, later, pushed, returned⟩ := (loop ℕ).exists_run_of_replay _ _ _ second
  exact ⟨s, run, t, later, pushed,
    (executes_in_order ℕ).2 s _ t ⟨_, run⟩ outside later (by simp) returned⟩

end ProtoJS.EventLoop
