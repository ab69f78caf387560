import ProtoJS.Runtime.EventLoop

/-! # Running and stopping the event loop

One thread calls `run`, any number of others call `enqueueCallback` and `stop`. `stop` writes
`running` without the lock, `run` sets it on entry and tests it again at the head of its loop, so
a stop can be overwritten, fall between a false evaluation of the predicate and the blocking, or
make `run` return over a queue that is not empty. The steps that do so are named, and runs
without them are shown to drain what they owe and never to be stranded.
-/

namespace ProtoJS.EventLoop

/-- Where the caller of `run` stands. -/
inductive RunPc where
  /-- Before `running = true`. -/
  | entering
  /-- At the test `while (running)`. -/
  | head
  /-- About to take the lock and evaluate the predicate. -/
  | waiting
  /-- The predicate was false; holds the lock. -/
  | mustBlock
  | blocked
  /-- The predicate was true; holds the lock. -/
  | admitted
  /-- In `processCallbacks`. -/
  | processing
  | returned
deriving DecidableEq, Repr

/-- Where a thread that calls `enqueueCallback` and `stop` stands. -/
inductive ThreadPc (κ : Type*) where
  | idle
  /-- Before the locked region of `enqueueCallback`. -/
  | enqueuing (callback : κ)
  /-- Before `notify_one`. -/
  | notifyingOne (callback : κ)
  /-- Before `running = false`. -/
  | stopping
  /-- Before `notify_all`. -/
  | notifyingAll
deriving DecidableEq, Repr

structure RunState (κ ι : Type*) where
  loop : State κ := {}
  running : Bool := false
  run : RunPc := .entering
  thread : ι → ThreadPc κ := fun _ => .idle
  /-- The callbacks whose `enqueueCallback` has returned. -/
  enqueued : List κ := []
  /-- Those whose `enqueueCallback` had returned when `stop` was called, `run` not having
  returned. -/
  due : List κ := []
  /-- A call of `stop` has returned. -/
  stopped : Bool := false
  /-- A call of `stop` has written the flag before `run` did. -/
  overwritten : Bool := false

/-- The steps of `processCallbacks`. -/
inductive ProcessStep where
  | swap
  | call
  | finish (threw : Bool)
  | leave
deriving DecidableEq, Repr

def ProcessStep.toAction {κ : Type*} : ProcessStep → Action κ
  | .swap => .processCallbacks
  | .call => .call
  | .finish threw => .finish threw
  | .leave => .leave

inductive RunStep where
  /-- `running = true`. -/
  | enter
  | testHead
  | evaluate
  | block
  | wakeSpuriously
  /-- `if (!running && callbackQueue.empty())`. -/
  | testBreak
  | process (step : ProcessStep)
deriving DecidableEq, Repr

inductive ThreadStep (κ : Type*) where
  | callEnqueue (callback : κ)
  | push
  | notifyOne
  | callStop
  | clear
  | notifyAll
deriving DecidableEq, Repr

inductive RunAction (κ ι : Type*) where
  | run (step : RunStep)
  | thread (i : ι) (step : ThreadStep κ)
deriving DecidableEq, Repr

def RunPc.HoldsLock : RunPc → Prop
  | .mustBlock | .admitted => True
  | _ => False

instance : DecidablePred RunPc.HoldsLock
  | .mustBlock | .admitted => inferInstanceAs (Decidable True)
  | .entering | .head | .waiting | .blocked | .processing | .returned =>
    inferInstanceAs (Decidable False)

/-- What a notification does to the caller of `run`. -/
def RunPc.wake : RunPc → RunPc
  | .blocked => .waiting
  | pc => pc

variable {κ ι : Type*}

/-- The predicate of `condition.wait`. -/
def RunState.ready (s : RunState κ ι) : Bool := !s.loop.callbackQueue.isEmpty || !s.running

def RunEnabled (s : RunState κ ι) : RunStep → Prop
  | .enter => s.run = .entering
  | .testHead => s.run = .head
  | .evaluate => s.run = .waiting
  | .block => s.run = .mustBlock
  | .wakeSpuriously => s.run = .blocked
  | .testBreak => s.run = .admitted
  | .process step => s.run = .processing ∧ Enabled s.loop step.toAction

def runNext (s : RunState κ ι) : RunStep → RunState κ ι
  | .enter => { s with running := true, run := .head }
  | .testHead => { s with run := if s.running then .waiting else .returned }
  | .evaluate => { s with run := if s.ready then .admitted else .mustBlock }
  | .block => { s with run := .blocked }
  | .wakeSpuriously => { s with run := .waiting }
  | .testBreak =>
    { s with run := if !s.running && s.loop.callbackQueue.isEmpty then .returned else .processing }
  | .process step =>
    { s with
      loop := next s.loop step.toAction
      run := if step = .leave then .head else .processing }

variable {s t : RunState κ ι}

@[simp] theorem runNext_thread (step : RunStep) : (runNext s step).thread = s.thread := by
  cases step <;> rfl

@[simp] theorem runNext_due (step : RunStep) : (runNext s step).due = s.due := by
  cases step <;> rfl

@[simp] theorem runNext_enqueued (step : RunStep) : (runNext s step).enqueued = s.enqueued := by
  cases step <;> rfl

@[simp] theorem runNext_stopped (step : RunStep) : (runNext s step).stopped = s.stopped := by
  cases step <;> rfl

@[simp] theorem runNext_overwritten (step : RunStep) :
    (runNext s step).overwritten = s.overwritten := by
  cases step <;> rfl

@[simp] theorem runNext_pushed (step : RunStep) :
    (runNext s step).loop.pushed = s.loop.pushed := by
  cases step with
  | process step =>
    apply pushed_next
    cases step <;> simp [ProcessStep.toAction]
  | _ => rfl

def ThreadEnabled (s : RunState κ ι) (i : ι) : ThreadStep κ → Prop
  | .callEnqueue _ => s.thread i = .idle
  | .push => ¬s.run.HoldsLock ∧
      ∃ callback, s.thread i = .enqueuing callback ∧ Enabled s.loop (.enqueueCallback callback)
  | .notifyOne => ∃ callback, s.thread i = .notifyingOne callback
  | .callStop => s.thread i = .idle
  | .clear => s.thread i = .stopping
  | .notifyAll => s.thread i = .notifyingAll

variable [DecidableEq ι]

def RunState.setThread (s : RunState κ ι) (i : ι) (pc : ThreadPc κ) : RunState κ ι :=
  { s with thread := Function.update s.thread i pc }

def threadNext (s : RunState κ ι) (i : ι) : ThreadStep κ → RunState κ ι
  | .callEnqueue callback => s.setThread i (.enqueuing callback)
  | .push => match s.thread i with
    | .enqueuing callback =>
      { s.setThread i (.notifyingOne callback) with
        loop := next s.loop (.enqueueCallback callback) }
    | _ => s
  | .notifyOne => match s.thread i with
    | .notifyingOne callback =>
      { s.setThread i .idle with run := s.run.wake, enqueued := s.enqueued ++ [callback] }
    | _ => s
  | .callStop =>
    { s.setThread i .stopping with due := if s.run = .returned then s.due else s.enqueued }
  | .clear =>
    { s.setThread i .notifyingAll with
      running := false
      overwritten := s.overwritten || s.run = .entering }
  | .notifyAll => { s.setThread i .idle with run := s.run.wake, stopped := true }

/-- `run` on one thread, `enqueueCallback` and `stop` on the others. -/
def runLoop (κ ι : Type*) [DecidableEq ι] : Machine (RunState κ ι) (RunAction κ ι) where
  initial := {}
  Enabled s
    | .run step => RunEnabled s step
    | .thread i step => ThreadEnabled s i step
  next s
    | .run step => runNext s step
    | .thread i step => threadNext s i step

/-- When `run` has returned, what was due has been executed. -/
def Drained (s : RunState κ ι) : Prop :=
  s.run = .returned → ∀ callback ∈ s.due, callback ∈ s.loop.executed

/-- `run` is blocked though a call of `stop` has returned, and no call is under way that would
notify it. -/
structure RunStranded (s : RunState κ ι) : Prop where
  blocked : s.run = .blocked
  stopped : s.stopped = true
  idle : ∀ i, s.thread i = .idle

/-- The steps that lose a callback or a stop: the head of the loop finds `running` cleared with a
callback in the queue that was due; and `run` blocks, with no call under way, though a stop has
cleared the flag before `run` set it, or has cleared it since the evaluation of the predicate. -/
def Loses (s : RunState κ ι) : RunAction κ ι → Prop
  | .run .testHead => s.running = false ∧ ∃ callback ∈ s.due, callback ∈ s.loop.callbackQueue
  | .run .block => (s.overwritten = true ∨ s.running = false) ∧ ∀ i, s.thread i = .idle
  | _ => False

section Invariants

/-- Outside of `processCallbacks` the queue holds all that has not been executed. -/
theorem pushed_of_outside {l : State κ} (reachable : (loop κ).Reachable l)
    (outside : l.main = .outside) : l.pushed = l.executed ++ l.callbackQueue := by
  have accounts := (ledger reachable).accounts
  have started := started_eq reachable
  rw [outside] at started
  simpa [toChannel, outside, started, MainPc.current, MainPc.batch] using accounts

/-- What the loop inside has done and what the threads have handed over. -/
structure RunKept (s : RunState κ ι) : Prop where
  reachable : (loop κ).Reachable s.loop
  outside : s.run ≠ .processing → s.loop.main = .outside
  notifying : ∀ i callback, s.thread i = .notifyingOne callback → callback ∈ s.loop.pushed
  enqueued : ∀ callback ∈ s.enqueued, callback ∈ s.loop.pushed
  due : ∀ callback ∈ s.due, callback ∈ s.loop.pushed

omit [DecidableEq ι] in
private theorem runKept_run {step : RunStep} (enabled : RunEnabled s step) (kept : RunKept s) :
    RunKept (runNext s step) := by
  obtain ⟨reachable, outside, notifying, enqueued, due⟩ := kept
  refine ⟨?_, ?_, by simpa using notifying, by simpa using enqueued, by simpa using due⟩
  · cases step with
    | process step => exact reachable.next (a := step.toAction) enabled.2
    | _ => exact reachable
  · intro other
    cases step with
    | process step =>
      cases step with
      | leave => rfl
      | _ => exact (other rfl).elim
    | _ =>
      apply outside
      rw [show s.run = _ from enabled]
      simp

variable {a : RunAction κ ι} {as : List (RunAction κ ι)} {i j : ι}
  {step : ThreadStep κ}

private theorem thread_of_setThread {pc target : ThreadPc κ}
    (there : (s.setThread i pc).thread j = target) : pc = target ∧ j = i ∨ s.thread j = target := by
  change Function.update s.thread i pc j = target at there
  by_cases same : j = i
  · subst same
    exact .inl ⟨by rwa [Function.update_self] at there, rfl⟩
  · exact .inr (by rwa [Function.update_of_ne same] at there)

private theorem wake_eq_processing {pc : RunPc} : pc.wake = .processing ↔ pc = .processing := by
  cases pc <;> simp [RunPc.wake]

private theorem runKept_thread (enabled : ThreadEnabled s i step) (kept : RunKept s) :
    RunKept (threadNext s i step) := by
  obtain ⟨reachable, outside, notifying, enqueued, due⟩ := kept
  have moved (pc : ThreadPc κ) (quiet : ∀ callback, pc ≠ .notifyingOne callback) :
      ∀ j callback, (s.setThread i pc).thread j = .notifyingOne callback →
        callback ∈ s.loop.pushed := by
    intro j callback there
    rcases thread_of_setThread there with ⟨notifies, _⟩ | before
    · exact (quiet callback notifies).elim
    · exact notifying j callback before
  cases step with
  | callEnqueue callback =>
    exact ⟨reachable, outside, moved _ (by simp), enqueued, due⟩
  | push =>
    obtain ⟨_, callback, there, fresh⟩ := enabled
    have grows (c : κ) (member : c ∈ s.loop.pushed) :
        c ∈ (next s.loop (.enqueueCallback callback)).pushed := List.mem_append_left _ member
    simp only [threadNext, there]
    refine ⟨reachable.next (a := Action.enqueueCallback callback) fresh, outside, ?_,
      fun c member => grows c (enqueued c member), fun c member => grows c (due c member)⟩
    intro j c there
    rcases thread_of_setThread there with ⟨notifies, _⟩ | before
    · cases notifies
      exact List.mem_append_right _ (List.mem_singleton_self callback)
    · exact grows c (notifying j c before)
  | notifyOne =>
    obtain ⟨callback, there⟩ := enabled
    simp only [threadNext, there]
    refine ⟨reachable, fun other => outside (mt wake_eq_processing.mpr other),
      moved _ (by simp), ?_, due⟩
    intro c member
    rcases List.mem_append.mp member with before | last
    · exact enqueued c before
    · rw [List.mem_singleton.mp last]
      exact notifying i callback there
  | callStop =>
    refine ⟨reachable, outside, moved _ (by simp), enqueued, ?_⟩
    intro c member
    simp only [threadNext] at member
    split at member
    · exact due c member
    · exact enqueued c member
  | clear => exact ⟨reachable, outside, moved _ (by simp), enqueued, due⟩
  | notifyAll =>
    exact ⟨reachable, fun other => outside (mt wake_eq_processing.mpr other), moved _ (by simp),
      enqueued, due⟩

theorem runKept_of_reachable (reachable : (runLoop κ ι).Reachable s) : RunKept s := by
  refine reachable.invariant (P := RunKept) ?_ ?_
  · constructor <;> simp [runLoop]
    exact Machine.Reachable.initial
  rintro s (step | ⟨i, step⟩) _ enabled kept
  · exact runKept_run enabled kept
  · exact runKept_thread enabled kept

/-- A call of `stop` has written the flag exactly if it was overwritten or the flag is still
cleared: `run` sets it once, on entry. -/
def Written (s : RunState κ ι) : Prop :=
  (s.stopped = true ∨ ∃ i, s.thread i = .notifyingAll) ↔
    (s.overwritten = true ∨ s.run ≠ .entering ∧ s.running = false)

private theorem wake_eq_entering {pc : RunPc} : pc.wake = .entering ↔ pc = .entering := by
  cases pc <;> simp [RunPc.wake]

private theorem notifyingAll_setThread (pc : ThreadPc κ) (before : s.thread i ≠ .notifyingAll)
    (after : pc ≠ .notifyingAll) :
    (∃ j, (s.setThread i pc).thread j = .notifyingAll) ↔ ∃ j, s.thread j = .notifyingAll := by
  constructor
  · rintro ⟨j, there⟩
    rcases thread_of_setThread there with ⟨same, _⟩ | there
    · exact (after same).elim
    · exact ⟨j, there⟩
  · rintro ⟨j, there⟩
    have ne : j ≠ i := by
      rintro rfl
      exact before there
    refine ⟨j, ?_⟩
    change Function.update s.thread i pc j = _
    rwa [Function.update_of_ne ne]

omit [DecidableEq ι] in
private theorem written_run {step : RunStep} (enabled : RunEnabled s step) (written : Written s) :
    Written (runNext s step) := by
  unfold Written at written ⊢
  rw [runNext_stopped, runNext_thread, runNext_overwritten, written]
  cases step with
  | enter => simp [runNext, show s.run = .entering from enabled]
  | testHead | evaluate | testBreak =>
    simp only [runNext, show s.run = _ from enabled]
    split <;> simp
  | block | wakeSpuriously => simp [runNext, show s.run = _ from enabled]
  | process step =>
    simp only [runNext, enabled.1]
    split <;> simp

private theorem written_thread (enabled : ThreadEnabled s i step) (written : Written s) :
    Written (threadNext s i step) := by
  unfold Written at written ⊢
  cases step with
  | callEnqueue callback =>
    have kept := notifyingAll_setThread (s := s) (i := i) (.enqueuing callback)
      (by rw [show s.thread i = .idle from enabled]; simp) (by simp)
    exact (or_congr Iff.rfl kept).trans written
  | push =>
    obtain ⟨_, callback, there, _⟩ := enabled
    have kept := notifyingAll_setThread (s := s) (i := i) (.notifyingOne callback)
      (by simp [there]) (by simp)
    simp only [threadNext, there]
    exact (or_congr Iff.rfl kept).trans written
  | notifyOne =>
    obtain ⟨callback, there⟩ := enabled
    have kept := notifyingAll_setThread (s := s) (i := i) .idle (by simp [there]) (by simp)
    simp only [threadNext, there]
    rw [ne_eq, wake_eq_entering]
    exact (or_congr Iff.rfl kept).trans written
  | callStop =>
    have kept := notifyingAll_setThread (s := s) (i := i) .stopping
      (by rw [show s.thread i = .idle from enabled]; simp) (by simp)
    exact (or_congr Iff.rfl kept).trans written
  | clear =>
    refine iff_of_true (.inr ⟨i, Function.update_self ..⟩) ?_
    by_cases entering : s.run = .entering
    · simp [threadNext, entering]
    · exact .inr ⟨entering, rfl⟩
  | notifyAll =>
    refine iff_of_true (.inl rfl) ?_
    simp only [threadNext, ne_eq, wake_eq_entering]
    exact written.mp (.inr ⟨i, enabled⟩)

theorem written_of_reachable (reachable : (runLoop κ ι).Reachable s) : Written s := by
  refine reachable.invariant (P := Written) (by simp [runLoop, Written]) ?_
  rintro s (step | ⟨i, step⟩) _ enabled written
  · exact written_run enabled written
  · exact written_thread enabled written

end Invariants

section Losing

variable {a : RunAction κ ι} {as : List (RunAction κ ι)} {i : ι} {step : ThreadStep κ}

omit [DecidableEq ι] in
/-- What is due is executed or still in the queue while the caller of `run` is outside of
`processCallbacks`. -/
theorem executed_or_queued (kept : RunKept s) (out : s.run ≠ .processing) {callback : κ}
    (due : callback ∈ s.due) :
    callback ∈ s.loop.executed ∨ callback ∈ s.loop.callbackQueue := by
  rw [← List.mem_append, ← pushed_of_outside kept.reachable (kept.outside out)]
  exact kept.due callback due

omit [DecidableEq ι] in
private theorem drained_run {step : RunStep} (kept : RunKept s) (enabled : RunEnabled s step)
    (keeps : ¬Loses s (.run step)) : Drained (runNext s step) := by
  intro returned callback due
  rw [runNext_due] at due
  cases step with
  | testHead =>
    have there : s.run = .head := enabled
    cases flag : s.running with
    | true => simp [runNext, flag] at returned
    | false =>
      refine (executed_or_queued kept (by simp [there]) due).resolve_right fun queued => ?_
      exact keeps ⟨flag, callback, due, queued⟩
  | testBreak =>
    have there : s.run = .admitted := enabled
    simp only [runNext] at returned
    split at returned
    · next stops =>
      simp only [Bool.and_eq_true, List.isEmpty_iff] at stops
      apply (executed_or_queued kept (by simp [there]) due).resolve_right
      simp [stops.2]
    · cases returned
  | evaluate =>
    simp only [runNext] at returned
    split at returned <;> cases returned
  | process step =>
    simp only [runNext] at returned
    split at returned <;> cases returned
  | enter | block | wakeSpuriously => cases returned

private theorem drained_thread (enabled : ThreadEnabled s i step) (drained : Drained s) :
    Drained (threadNext s i step) := by
  have woken {pc : RunPc} (returned : pc.wake = .returned) : pc = .returned := by
    cases pc <;> simp_all [RunPc.wake]
  intro returned callback due
  cases step with
  | callEnqueue | clear => exact drained returned callback due
  | push =>
    obtain ⟨_, other, there, _⟩ := enabled
    simp only [threadNext, there] at returned due ⊢
    exact drained returned callback due
  | notifyOne =>
    obtain ⟨other, there⟩ := enabled
    simp only [threadNext, there] at returned due ⊢
    exact drained (woken returned) callback due
  | callStop =>
    simp only [threadNext, show s.run = .returned from returned, if_true] at due
    exact drained returned callback due
  | notifyAll => exact drained (woken returned) callback due

omit [DecidableEq ι] in
private theorem not_stranded_run {step : RunStep} (written : Written s)
    (enabled : RunEnabled s step) (keeps : ¬Loses s (.run step)) :
    ¬RunStranded (runNext s step) := by
  rintro ⟨blocked, stopped, idle⟩
  rw [runNext_stopped] at stopped
  rw [runNext_thread] at idle
  cases step with
  | block =>
    refine keeps ⟨?_, idle⟩
    exact (written.mp (.inl stopped)).imp id And.right
  | testHead | evaluate | testBreak =>
    simp only [runNext] at blocked
    split at blocked <;> cases blocked
  | process step =>
    simp only [runNext] at blocked
    split at blocked <;> cases blocked
  | enter | wakeSpuriously => cases blocked

/-- A thread that finishes a call leaves nobody blocked, and every other step leaves it busy. -/
private theorem not_stranded_thread (enabled : ThreadEnabled s i step) :
    ¬RunStranded (threadNext s i step) := by
  have awake {pc : RunPc} : pc.wake ≠ .blocked := by cases pc <;> simp [RunPc.wake]
  rintro ⟨blocked, _, idle⟩
  have mine := idle i
  cases step with
  | callEnqueue | callStop | clear =>
    have there := (Function.update_self i _ s.thread).symm.trans mine
    cases there
  | push =>
    obtain ⟨_, callback, there, _⟩ := enabled
    simp only [threadNext, there] at mine
    have there := (Function.update_self i _ s.thread).symm.trans mine
    cases there
  | notifyOne =>
    obtain ⟨callback, there⟩ := enabled
    simp only [threadNext, there] at blocked
    exact awake blocked
  | notifyAll => exact awake blocked

theorem kept_of_restrict (reachable : ((runLoop κ ι).restrict fun s a => ¬Loses s a).Reachable s) :
    Drained s ∧ ¬RunStranded s := by
  refine reachable.invariant (P := fun s => Drained s ∧ ¬RunStranded s) ?_ ?_
  · refine ⟨?_, fun stranded => ?_⟩
    · intro returned
      cases returned
    · cases stranded.blocked
  rintro s (step | ⟨i, step⟩) kept ⟨enabled, keeps⟩ ⟨drained, _⟩
  · exact ⟨drained_run (runKept_of_reachable kept.of_restrict) enabled keeps,
      not_stranded_run (written_of_reachable kept.of_restrict) enabled keeps⟩
  · exact ⟨drained_thread enabled drained, not_stranded_thread enabled⟩

/-- A step that loses something leads at once to a state that shows it. -/
theorem loses_at_once (reachable : (runLoop κ ι).Reachable s)
    (enabled : (runLoop κ ι).Enabled s a) (loses : Loses s a) :
    ¬Drained ((runLoop κ ι).next s a) ∨ RunStranded ((runLoop κ ι).next s a) := by
  have kept := runKept_of_reachable reachable
  rcases a with step | ⟨i, step⟩
  · cases step <;> try exact loses.elim
    · obtain ⟨cleared, callback, due, queued⟩ := loses
      have there : s.run = .head := enabled
      have waiting : callback ∉ s.loop.executed := by
        have started := started_eq kept.reachable
        rw [kept.outside (by simp [there])] at started
        have pending : callback ∈ (toChannel s.loop).pending := List.mem_append_right _ queued
        have fresh := (ledger kept.reachable).pending_disjoint pending
        rw [show (toChannel s.loop).delivered = _ from started] at fresh
        simpa [MainPc.current] using fresh
      refine .inl fun drained => waiting (drained ?_ callback due)
      simp [runLoop, runNext, cleared]
    · obtain ⟨lost, idle⟩ := loses
      have there : s.run = .mustBlock := enabled
      refine .inr ⟨rfl, ?_, idle⟩
      have wrote : s.overwritten = true ∨ s.run ≠ .entering ∧ s.running = false :=
        lost.imp id fun cleared => ⟨by simp [there], cleared⟩
      rcases (written_of_reachable reachable).mpr wrote with stopped | ⟨i, notifying⟩
      · exact stopped
      · cases (idle i).symm.trans notifying
  · exact loses.elim

/-- `run` and `stop` keep their protocol exactly when no step loses something: in a run without
such steps whatever was due has been executed when `run` returns and `run` is never stranded, and
such a step breaks the one or the other. -/
theorem run_stop_iff_loses (κ ι : Type*) [DecidableEq ι] :
    (∀ as s, (runLoop κ ι).Run {} as s →
      (∀ prior a rest mid, as = prior ++ a :: rest → (runLoop κ ι).Run {} prior mid →
        ¬Loses mid a) →
      Drained s ∧ ¬RunStranded s) ∧
    ∀ s a, (runLoop κ ι).Reachable s → (runLoop κ ι).Enabled s a → Loses s a →
      ¬Drained ((runLoop κ ι).next s a) ∨ RunStranded ((runLoop κ ι).next s a) := by
  constructor
  · intro as s run keeps
    exact kept_of_restrict ⟨as, Machine.restrict_run_iff.mpr ⟨run, keeps⟩⟩
  · intro s a reachable enabled loses
    exact loses_at_once reachable enabled loses

end Losing

section Interleavings

variable [DecidableEq κ]

instance (s : RunState κ ι) : DecidablePred (RunEnabled s)
  | .enter | .testHead | .evaluate | .block | .wakeSpuriously | .testBreak =>
    inferInstanceAs (Decidable (s.run = _))
  | .process step =>
    inferInstanceAs (Decidable (s.run = .processing ∧ Enabled s.loop step.toAction))

instance (s : RunState κ ι) (i : ι) : DecidablePred (ThreadEnabled s i)
  | .callEnqueue _ | .callStop => inferInstanceAs (Decidable (s.thread i = .idle))
  | .push => match found : s.thread i with
    | .enqueuing callback =>
      decidable_of_iff (¬s.run.HoldsLock ∧ Enabled s.loop (.enqueueCallback callback))
        (by simp [ThreadEnabled, found])
    | .idle | .notifyingOne _ | .stopping | .notifyingAll =>
      isFalse (by simp [ThreadEnabled, found])
  | .notifyOne => match found : s.thread i with
    | .notifyingOne callback => isTrue ⟨callback, found⟩
    | .idle | .enqueuing _ | .stopping | .notifyingAll =>
      isFalse (by simp [ThreadEnabled, found])
  | .clear => inferInstanceAs (Decidable (s.thread i = .stopping))
  | .notifyAll => inferInstanceAs (Decidable (s.thread i = .notifyingAll))

instance (s : RunState κ ι) (a : RunAction κ ι) : Decidable ((runLoop κ ι).Enabled s a) :=
  match a with
  | .run step => inferInstanceAs (Decidable (RunEnabled s step))
  | .thread i step => inferInstanceAs (Decidable (ThreadEnabled s i step))

instance [Fintype ι] (s : RunState κ ι) : DecidablePred (Loses s)
  | .run .testHead => inferInstanceAs (Decidable (_ ∧ ∃ callback ∈ s.due, _))
  | .run .block => inferInstanceAs (Decidable (_ ∧ ∀ i, s.thread i = .idle))
  | .run .enter | .run .evaluate | .run .wakeSpuriously | .run .testBreak | .run (.process _)
  | .thread _ _ => inferInstanceAs (Decidable False)

/-- Thread `i` enqueues a callback, which blocked `run` then executes, and stops it afterwards. -/
def orderlyStop (i : ι) (callback : κ) : List (RunAction κ ι) :=
  [.run .enter, .run .testHead, .run .evaluate, .run .block, .thread i (.callEnqueue callback),
    .thread i .push, .thread i .notifyOne, .run .evaluate, .run .testBreak, .run (.process .swap),
    .run (.process .call), .run (.process (.finish false)), .run (.process .leave),
    .run .testHead, .run .evaluate, .run .block, .thread i .callStop, .thread i .clear,
    .thread i .notifyAll, .run .evaluate, .run .testBreak]

/-- No step of that run loses anything. -/
theorem run_stop_iff_loses_orderly : ∃ s, (runLoop ℕ Unit).Run {} (orderlyStop () 0) s ∧
    s.run = .returned ∧ s.due = [0] ∧ s.loop.executed = [0] ∧ Drained s ∧ ¬RunStranded s := by
  obtain ⟨s, run, returned, due, executed⟩ :=
    ((runLoop ℕ Unit).restrict fun s a => ¬Loses s a).exists_run_of_replay {} (orderlyStop () 0)
      (fun s => s.run = .returned ∧ s.due = [0] ∧ s.loop.executed = [0]) (by decide)
  obtain ⟨run, keeps⟩ := Machine.restrict_run_iff.mp run
  exact ⟨s, run, returned, due, executed, (run_stop_iff_loses ℕ Unit).1 _ s run keeps⟩

/-- While `run` executes `first`, thread `i` enqueues `second` and stops the loop. -/
def stopWhileProcessing (i : ι) (first second : κ) : List (RunAction κ ι) :=
  [.thread i (.callEnqueue first), .thread i .push, .thread i .notifyOne, .run .enter,
    .run .testHead, .run .evaluate, .run .testBreak, .run (.process .swap), .run (.process .call),
    .thread i (.callEnqueue second), .thread i .push, .thread i .notifyOne, .thread i .callStop,
    .thread i .clear, .thread i .notifyAll, .run (.process (.finish false)),
    .run (.process .leave), .run .testHead]

/-- A stop that is announced before `run` has blocked on its false evaluation. -/
def stopBeforeBlocking (i : ι) : List (RunAction κ ι) :=
  [.run .enter, .run .testHead, .run .evaluate, .thread i .callStop, .thread i .clear,
    .thread i .notifyAll, .run .block]

/-- A stop that `run` overwrites on entry. -/
def stopBeforeEntry (i : ι) : List (RunAction κ ι) :=
  [.thread i .callStop, .thread i .clear, .thread i .notifyAll, .run .enter, .run .testHead,
    .run .evaluate, .run .block]

/-- The first run returns with a callback left that was due, the other two leave `run` blocked. -/
theorem stop_unheard :
    (∃ s, (runLoop ℕ Unit).Run {} (stopWhileProcessing () 0 1) s ∧ ¬Drained s) ∧
    (∃ s, (runLoop ℕ Unit).Run {} (stopBeforeBlocking ()) s ∧ RunStranded s) ∧
    ∃ s, (runLoop ℕ Unit).Run {} (stopBeforeEntry ()) s ∧ RunStranded s := by
  refine ⟨?_, ?_, ?_⟩
  · obtain ⟨s, run, returned, due, executed⟩ := (runLoop ℕ Unit).exists_run_of_replay {}
      (stopWhileProcessing () 0 1)
      (fun s => s.run = .returned ∧ s.due = [0, 1] ∧ s.loop.executed = [0]) (by decide)
    refine ⟨s, run, fun drained => ?_⟩
    simpa [executed] using drained returned 1 (by simp [due])
  · obtain ⟨s, run, blocked, stopped, idle⟩ := (runLoop ℕ Unit).exists_run_of_replay {}
      (stopBeforeBlocking ())
      (fun s => s.run = .blocked ∧ s.stopped = true ∧ ∀ i, s.thread i = .idle) (by decide)
    exact ⟨s, run, blocked, stopped, idle⟩
  · obtain ⟨s, run, blocked, stopped, idle⟩ := (runLoop ℕ Unit).exists_run_of_replay {}
      (stopBeforeEntry ())
      (fun s => s.run = .blocked ∧ s.stopped = true ∧ ∀ i, s.thread i = .idle) (by decide)
    exact ⟨s, run, blocked, stopped, idle⟩

end Interleavings

end ProtoJS.EventLoop
