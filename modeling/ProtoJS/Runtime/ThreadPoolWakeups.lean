import ProtoJS.Runtime.ThreadPoolSteps

/-! # Who is woken, and who is not

Workers and `shutdown` callers wait on one condition variable. A queued task is never stranded:
before a shutdown only workers wait, so the `notify_one` of `submit` reaches one of them, and
after it a worker only stays blocked until the `notify_all` that follows the flag. A `shutdown`
caller can be stranded: a worker changes `activeCount` and notifies without holding the lock, so
both can happen between the caller's false evaluation and its blocking. That loss is the only
one, and every run without it keeps a worker that will still notify.
-/

namespace ProtoJS.ThreadPoolExecutor

open State

variable {numThreads numCalls : ℕ} {s t : State numThreads numCalls}
  {i j : Fin numThreads} {c d : Fin numCalls}
  {move : WorkerStep numCalls} {step : CallStep numThreads numCalls}
  {a : Action numThreads numCalls} {as : List (Action numThreads numCalls)}

section Stranding

/-- A call of `shutdown` or `shutdownNow` between setting its flag and its `notify_all`. -/
def CallPc.Announcing : CallPc → Prop
  | .shutdownNotifying | .shutdownNowNotifying => True
  | _ => False

/-- A queued task that no thread is on its way to announce, with every worker blocked. -/
structure Stranded (s : State numThreads numCalls) : Prop where
  queued : s.taskQueue ≠ []
  blocked : ∀ i, s.worker i = .blocked
  submitted : ∀ c, s.call c ≠ .submitNotifying
  announced : ∀ c, ¬(s.call c).Announcing

private theorem announcing_next (enabled : (executor numThreads numCalls).Enabled s a)
    (announcing : (s.call c).Announcing) :
    (((executor numThreads numCalls).next s a).call c).Announcing ∨
      ∀ i, ((executor numThreads numCalls).next s a).worker i ≠ .blocked := by
  by_cases acts : a.actor = .call c
  · rcases a with _ | ⟨d, step⟩ <;> cases acts
    have acting : CallEnabled s c step := enabled
    cases step with
    | announce => exact .inr fun i => (s.worker i).wake_ne_blocked
    | _ =>
      exact (call_of_sources (P := (¬CallPc.Announcing ·)) acting
        (by simp [CallStep.sources, CallPc.Announcing]) announcing).elim
  · rcases call_of_not_actor (s := s) acts with same | ⟨before, _⟩
    · exact .inl (same ▸ announcing)
    · rw [before] at announcing
      exact announcing.elim

/-- A worker is found blocked because it was, or because it has just blocked on an empty queue
before any shutdown. -/
private theorem blocked_before (reachable : (executor numThreads numCalls).Reachable s)
    (enabled : (executor numThreads numCalls).Enabled s a)
    (blocked : ((executor numThreads numCalls).next s a).worker i = .blocked) :
    s.worker i = .blocked ∨ ((executor numThreads numCalls).next s a).taskQueue = [] ∧
      ((executor numThreads numCalls).next s a).shutdownFlag = false := by
  by_cases acts : a.actor = .worker i
  · rcases a with ⟨j, move⟩ | _ <;> cases acts
    cases move with
    | block =>
      obtain ⟨empty, opened⟩ := blocking_worker (s := s) reachable enabled
      exact .inr ⟨empty, opened⟩
    | evaluate =>
      change (workerNext s i .evaluate).worker i = _ at blocked
      rw [evaluate_worker] at blocked
      split at blocked <;> contradiction
    | _ => simp [executor, workerNext, setWorker] at blocked
  · exact .inl (worker_stays acts blocked (by simp))

/-- In a closed pool a worker is blocked only while a `notify_all` is still to come. -/
theorem announcing_of_blocked (reachable : (executor numThreads numCalls).Reachable s)
    (closed : s.shutdownFlag = true) (blocked : s.worker i = .blocked) :
    ∃ c, (s.call c).Announcing := by
  revert closed blocked
  refine reachable.invariant (P := fun s => s.shutdownFlag = true → s.worker i = .blocked →
    ∃ c, (s.call c).Announcing) (fun closed => ?_) ?_
  · contradiction
  intro s a reachable enabled known closed blocked
  rcases blocked_before reachable enabled blocked with before | ⟨_, opened⟩
  · have carried (old : s.shutdownFlag = true) :
        ∃ c, (((executor numThreads numCalls).next s a).call c).Announcing := by
      obtain ⟨c, announcing⟩ := known old before
      rcases announcing_next enabled announcing with still | awake
      · exact ⟨c, still⟩
      · exact (awake i blocked).elim
    rcases a with ⟨j, move⟩ | ⟨c, step⟩
    · cases move <;> exact carried closed
    · change (callNext s c step).shutdownFlag = true at closed
      rcases callNext_cases s c step with ⟨rfl, opened⟩ | rfl | rfl | ⟨_, _, _, same⟩
      · simp [callNext, opened, setCall] at closed
      · exact ⟨c, by simp [executor, callNext, setCall, CallPc.Announcing]⟩
      · exact ⟨c, by simp [executor, callNext, setCall, CallPc.Announcing]⟩
      · rw [same] at closed
        exact carried closed
  · cases opened.symm.trans closed

private theorem notifying_stays (enabled : (executor numThreads numCalls).Enabled s a)
    (notifying : s.call c = .submitNotifying) (other : ∀ target, a ≠ .call c (.notifyOne target)) :
    ((executor numThreads numCalls).next s a).call c = .submitNotifying := by
  by_cases acts : a.actor = .call c
  · rcases a with _ | ⟨d, step⟩ <;> cases acts
    have acting : CallEnabled s c step := enabled
    cases step with
    | notifyOne target => exact (other target rfl).elim
    | _ =>
      exact (call_of_sources (P := (· ≠ .submitNotifying)) acting
        (by simp [CallStep.sources]) notifying).elim
  · rcases call_of_not_actor (s := s) acts with same | ⟨before, _⟩
    · exact same.trans notifying
    · cases before.symm.trans notifying

/-- With every worker blocked, a task is queued only while its `notify_one` is still to come or
the pool is closed. -/
theorem notifying_of_queued (positive : 0 < numThreads)
    (reachable : (executor numThreads numCalls).Reachable s)
    (queued : s.taskQueue ≠ []) (blocked : ∀ i, s.worker i = .blocked) :
    s.shutdownFlag = true ∨ ∃ c, s.call c = .submitNotifying := by
  revert queued blocked
  refine reachable.invariant (P := fun s => s.taskQueue ≠ [] → (∀ i, s.worker i = .blocked) →
    s.shutdownFlag = true ∨ ∃ c, s.call c = .submitNotifying) (fun queued => (queued rfl).elim) ?_
  intro s a reachable enabled known queued blocked
  have before (i : Fin numThreads) : s.worker i = .blocked :=
    (blocked_before reachable enabled (blocked i)).resolve_right fun empty => queued empty.1
  have carried (old : s.taskQueue ≠ []) (other : ∀ c target, a ≠ .call c (.notifyOne target)) :
      ((executor numThreads numCalls).next s a).shutdownFlag = true ∨
        ∃ c, ((executor numThreads numCalls).next s a).call c = .submitNotifying := by
    rcases known old before with closed | ⟨c, notifying⟩
    · exact .inl (shutdownFlag_next closed)
    · exact .inr ⟨c, notifying_stays enabled notifying (other c)⟩
  rcases a with ⟨i, move⟩ | ⟨c, step⟩
  · -- the acting worker would have to be blocked before its own step
    have there : .blocked = move.source := (before i).symm.trans (worker_source enabled)
    cases move with
    | wakeSpuriously => cases (Function.update_self i _ s.worker).symm.trans (blocked i)
    | _ => cases there
  · cases step with
    | push =>
      cases flag : s.shutdownFlag with
      | true => exact .inl (shutdownFlag_next flag)
      | false =>
        refine .inr ⟨c, ?_⟩
        simp [executor, callNext, flag, setCall]
    | notifyOne target =>
      rcases target with _ | i | d
      · exact (enabled.2.1 ⟨0, positive⟩ (before _)).elim
      · have awake : (s.worker i).wake = .blocked := by
          simpa [executor, callNext, State.wake, setWorker, setCall] using blocked i
        exact ((s.worker i).wake_ne_blocked awake).elim
      · have closed : s.shutdownFlag = true := by
          apply closed_of_closing (c := d) reachable
          rw [show s.call d = .shutdownBlocked from enabled.2]
          trivial
        exact .inl (shutdownFlag_next closed)
    | close | closeNow => exact .inl rfl
    | evaluate =>
      refine carried ?_ (by simp)
      simp only [executor, callNext] at queued
      split at queued <;> exact queued
    | _ => exact carried queued (by simp)

/-- No reachable state of a pool strands a queued task. -/
theorem never_stranded {start : State numThreads numCalls}
    (constructed : construct numThreads numCalls = some start)
    (run : (executor numThreads numCalls).Run start as s) : ¬Stranded s := by
  obtain ⟨positive, rfl⟩ := construct_eq_some constructed
  have reachable : (executor numThreads numCalls).Reachable s := ⟨as, run⟩
  intro stranded
  rcases notifying_of_queued positive reachable stranded.queued stranded.blocked with
    closed | ⟨c, notifying⟩
  · obtain ⟨c, announcing⟩ := announcing_of_blocked reachable closed (stranded.blocked ⟨0, positive⟩)
    exact stranded.announced c announcing
  · exact stranded.submitted c notifying

/-- One worker is blocked; a task is pushed and its notification is still to come. -/
theorem never_stranded_pushed : ∃ s, (executor 1 1).Run {} [.worker 0 .evaluate, .worker 0 .block,
    .call 0 (.begin .submit), .call 0 .push] s ∧ s.taskQueue = [0] ∧ ¬Stranded s := by
  obtain ⟨s, run, queued⟩ := (executor 1 1).exists_run_of_replay {}
    [.worker 0 .evaluate, .worker 0 .block, .call 0 (.begin .submit), .call 0 .push]
    (fun s => s.taskQueue = [0]) (by decide)
  exact ⟨s, run, queued, never_stranded rfl run⟩

end Stranding

section Hanging

/-- The places from which a worker goes on to its `notify_all` without waiting for anything. -/
def WorkerPc.WillNotify : WorkerPc numCalls → Prop
  | .taken _ | .running _ | .finished | .notifying => True
  | _ => False

instance : DecidablePred (@WorkerPc.WillNotify numCalls)
  | .taken _ | .running _ | .finished | .notifying => inferInstanceAs (Decidable True)
  | .waiting | .mustBlock | .blocked | .admitted | .exited => inferInstanceAs (Decidable False)

/-- A `shutdown` caller blocked on a finished pool that no step of a worker will notify again. -/
structure Hung (s : State numThreads numCalls) (c : Fin numCalls) : Prop where
  blocked : s.call c = .shutdownBlocked
  empty : s.taskQueue = []
  inactive : s.activeCount = 0
  unnotified : ∀ as t, (executor numThreads numCalls).Run s as t → ∀ i, .worker i .notifyAll ∉ as

/-- The step after which no worker will notify, taken while a `shutdown` caller stands between
its false evaluation and its blocking; or `shutdownNow` emptying the queue of a caller that is
blocked already, with no worker left to notify it. -/
def Drops (s : State numThreads numCalls) : Action numThreads numCalls → Prop
  | .worker i .notifyAll => s.taskQueue = [] ∧ (∀ j, j ≠ i → ¬(s.worker j).WillNotify) ∧
      ∃ c, s.call c = .shutdownMustBlock
  | .call _ .closeNow => (∀ i, ¬(s.worker i).WillNotify) ∧ ∃ c, s.call c = .shutdownBlocked
  | _ => False

instance (s : State numThreads numCalls) : DecidablePred (Drops s)
  | .worker _ .notifyAll => inferInstanceAs (Decidable (_ ∧ _ ∧ _))
  | .call _ .closeNow => inferInstanceAs (Decidable (_ ∧ _))
  | .worker _ .evaluate | .worker _ .block | .worker _ .wakeSpuriously | .worker _ .exit
  | .worker _ (.take _) | .worker _ .skip | .worker _ (.activate _) | .worker _ (.finish _ _)
  | .worker _ .deactivate | .call _ (.begin _) | .call _ .push | .call _ (.notifyOne _)
  | .call _ .close | .call _ .announce | .call _ .evaluate | .call _ .block
  | .call _ .wakeSpuriously | .call _ .join => inferInstanceAs (Decidable False)

/-- A closed pool with nothing queued and no worker on its way to a notification. -/
structure Quiet (s : State numThreads numCalls) : Prop where
  closed : s.shutdownFlag = true
  empty : s.taskQueue = []
  idle : ∀ i, ¬(s.worker i).WillNotify

private theorem willNotify_of_frame {before after : WorkerPc numCalls}
    (frame : after = before ∨ before = .blocked ∧ after = .waiting) :
    after.WillNotify ↔ before.WillNotify := by
  rcases frame with same | ⟨blocked, waiting⟩
  · rw [same]
  · rw [blocked, waiting]
    exact Iff.rfl

private theorem quiet_worker (enabled : WorkerEnabled s i move) (quiet : Quiet s) :
    ¬((workerNext s i move).worker i).WillNotify := by
  have absurd (will : move.source.WillNotify) {P : Prop} : P :=
    (quiet.idle i (worker_source enabled ▸ will)).elim
  cases move with
  | evaluate =>
    rw [evaluate_worker]
    split <;> exact id
  | take task =>
    have queued := enabled.2.2
    rw [quiet.empty] at queued
    contradiction
  | skip =>
    have open_ := enabled.2.1
    simp [exitTest, quiet.closed, quiet.empty] at open_
  | activate task | finish task threw | deactivate | notifyAll => exact absurd trivial
  | _ => simp [workerNext, setWorker, WorkerPc.WillNotify]

private theorem quiet_next (enabled : (executor numThreads numCalls).Enabled s a)
    (quiet : Quiet s) : Quiet ((executor numThreads numCalls).next s a) := by
  refine ⟨shutdownFlag_next quiet.closed, taskQueue_next quiet.closed quiet.empty, fun i => ?_⟩
  by_cases acts : a.actor = .worker i
  · rcases a with ⟨j, move⟩ | _ <;> cases acts
    exact quiet_worker enabled quiet
  · exact fun will => quiet.idle i ((willNotify_of_frame (worker_of_not_actor acts)).mp will)

/-- No step of a worker notifies after a quiet state. -/
theorem Quiet.unnotified (quiet : Quiet s) (run : (executor numThreads numCalls).Run s as t)
    (i : Fin numThreads) : .worker i .notifyAll ∉ as := by
  induction run with
  | nil => exact List.not_mem_nil
  | cons enabled _ ih =>
    rintro (_ | ⟨_, later⟩)
    · apply quiet.idle i
      rw [show _ = WorkerPc.notifying from enabled]
      trivial
    · exact ih (quiet_next enabled quiet) later

/-- A worker on its way to a notification can go on to it by its own steps alone. -/
theorem exists_notifyAll (will : (s.worker i).WillNotify) :
    ∃ as t, (executor numThreads numCalls).Run s as t ∧ .worker i .notifyAll ∈ as := by
  have notify (s : State numThreads numCalls) (there : s.worker i = .notifying) :
      ∃ as t, (executor numThreads numCalls).Run s as t ∧ .worker i .notifyAll ∈ as :=
    ⟨_, _, .single (a := Action.worker i .notifyAll) there, List.mem_singleton_self _⟩
  have prepend {s : State numThreads numCalls} (move : WorkerStep numCalls)
      (enabled : WorkerEnabled s i move)
      (rest : ∃ as t, (executor numThreads numCalls).Run (workerNext s i move) as t ∧
        .worker i .notifyAll ∈ as) :
      ∃ as t, (executor numThreads numCalls).Run s as t ∧ .worker i .notifyAll ∈ as := by
    obtain ⟨as, t, run, member⟩ := rest
    exact ⟨_, t, .cons (a := Action.worker i move) enabled run, List.mem_cons_of_mem _ member⟩
  have deactivate (s : State numThreads numCalls) (there : s.worker i = .finished) :
      ∃ as t, (executor numThreads numCalls).Run s as t ∧ .worker i .notifyAll ∈ as :=
    prepend .deactivate there (notify _ (Function.update_self ..))
  have finish (s : State numThreads numCalls) (task : Fin numCalls)
      (there : s.worker i = .running task) :
      ∃ as t, (executor numThreads numCalls).Run s as t ∧ .worker i .notifyAll ∈ as :=
    prepend (.finish task false) there (deactivate _ (Function.update_self ..))
  cases there : s.worker i with
  | taken task => exact prepend (.activate task) there (finish _ task (Function.update_self ..))
  | running task => exact finish s task there
  | finished => exact deactivate s there
  | notifying => exact notify s there
  | _ => rw [there] at will; exact will.elim

/-- What keeps a waiting `shutdown` caller from hanging: the queue is not empty, or some worker
will still notify. -/
def Attended (s : State numThreads numCalls) : Prop :=
  s.taskQueue ≠ [] ∨ ∃ i, (s.worker i).WillNotify

private theorem willNotify_stays (other : a.actor ≠ .worker i) (will : (s.worker i).WillNotify) :
    (((executor numThreads numCalls).next s a).worker i).WillNotify :=
  (willNotify_of_frame (worker_of_not_actor other)).mpr will

/-- A worker's own step keeps the callers attended, but for its notification. -/
private theorem attended_worker (enabled : WorkerEnabled s i move) (attended : Attended s)
    (other : move ≠ .notifyAll) : Attended (workerNext s i move) := by
  have carried (queue : (workerNext s i move).taskQueue = s.taskQueue)
      (unwilling : ¬move.source.WillNotify) : Attended (workerNext s i move) := by
    rcases attended with queued | ⟨j, will⟩
    · exact .inl (queue ▸ queued)
    · have ne : j ≠ i := by
        rintro rfl
        exact unwilling (worker_source enabled ▸ will)
      exact .inr ⟨j, (willNotify_of_frame (workerNext_worker ne)).mpr will⟩
  have acting {pc : WorkerPc numCalls} (there : (workerNext s i move).worker i = pc)
      (will : pc.WillNotify) : Attended (workerNext s i move) := .inr ⟨i, there ▸ will⟩
  cases move with
  | evaluate | block | wakeSpuriously | exit => exact carried rfl id
  | take task | skip | activate task | finish task threw | deactivate =>
    exact acting (Function.update_self ..) trivial
  | notifyAll => exact (other rfl).elim

/-- A call's step keeps the callers attended, but for `shutdownNow` emptying the queue. -/
private theorem attended_call (attended : Attended s) (other : step ≠ .closeNow) :
    Attended (callNext s c step) := by
  rcases attended with queued | ⟨i, will⟩
  · left
    rcases callNext_cases s c step with ⟨rfl, opened⟩ | rfl | rfl | ⟨_, _, _, same⟩
    · simp [callNext, opened, setCall]
    · exact queued
    · exact (other rfl).elim
    · rw [same]
      exact queued
  · exact .inr ⟨i, (willNotify_of_frame callNext_worker).mpr will⟩

/-- The places of a `shutdown` caller after a false evaluation. -/
def CallPc.Waits : CallPc → Prop
  | .shutdownMustBlock | .shutdownBlocked => True
  | _ => False

private theorem waits_before (other : a.actor ≠ .call c)
    (waits : (((executor numThreads numCalls).next s a).call c).Waits) : (s.call c).Waits := by
  rcases call_of_not_actor (s := s) other with same | ⟨_, woken⟩
  · exact same ▸ waits
  · rw [woken] at waits
    exact waits.elim

/-- A caller that has just evaluated to false, or just blocked, was attended in that step. -/
private theorem attended_of_acts (reachable : (executor numThreads numCalls).Reachable s)
    (enabled : CallEnabled s c step) (known : (s.call c).Waits → Attended s)
    (waits : ((callNext s c step).call c).Waits) : Attended s := by
  cases step with
  | evaluate =>
    cases finished : s.drained with
    | true => simp [callNext, finished, setCall, CallPc.Waits] at waits
    | false =>
      by_cases queued : s.taskQueue = []
      · have active : ¬∀ i, (s.worker i).active = 0 := by
          rw [← activeCount_eq_zero_iff reachable]
          simpa [drained, queued] using finished
        obtain ⟨i, counted⟩ := not_forall.mp active
        refine .inr ⟨i, ?_⟩
        cases there : s.worker i <;> simp [there, WorkerPc.active] at counted <;> trivial
      · exact .inl queued
  | block => exact known (by rw [show s.call c = .shutdownMustBlock from enabled]; trivial)
  | begin operation =>
    cases operation <;> simp [callNext, setCall, Operation.entry, CallPc.Waits] at waits
  | push =>
    simp only [callNext] at waits
    split at waits <;> simp [setCall, CallPc.Waits] at waits
  | notifyOne target =>
    rcases target with _ | _ | _ <;> simp [callNext, setCall, CallPc.Waits] at waits
  | announce | join =>
    simp only [callNext, setCall, Function.update_self] at waits
    split at waits <;> exact waits.elim
  | _ => simp [callNext, setCall, CallPc.Waits] at waits

/-- In a run that drops no wake-up a waiting `shutdown` caller is attended. -/
theorem attended_of_waits
    (kept : ((executor numThreads numCalls).restrict fun s a => ¬Drops s a).Reachable s)
    (waits : (s.call c).Waits) : Attended s := by
  refine kept.invariant (P := fun s => ∀ c, (s.call c).Waits → Attended s)
    (fun _ waits => False.elim waits) ?_ c waits
  rintro s a kept ⟨enabled, keeps⟩ known c waits
  have reachable := kept.of_restrict
  rcases a with ⟨i, move⟩ | ⟨d, step⟩
  · have before : (s.call c).Waits := waits_before (a := .worker i move) (by simp [Action.actor]) waits
    by_cases notifies : move = .notifyAll
    · subst notifies
      have mustBlock : s.call c = .shutdownMustBlock := by
        have awake : ((s.call c).wake).Waits := waits
        cases there : s.call c <;> rw [there] at before awake <;> trivial
      by_contra unattended
      simp only [Attended, not_or, not_not, not_exists] at unattended
      refine keeps ⟨unattended.1, fun j ne will => unattended.2 j ?_, c, mustBlock⟩
      exact willNotify_stays (a := .worker i .notifyAll)
        (fun acts => ne (Thread.worker.inj acts).symm) will
    · exact attended_worker enabled (known c before) notifies
  · by_cases closes : step = .closeNow
    · subst closes
      have ne : Action.actor (.call d .closeNow) ≠ (.call c : Thread numThreads numCalls) := by
        intro same
        cases same
        simp [executor, callNext, setCall, CallPc.Waits] at waits
      have before := waits_before ne waits
      cases there : s.call c <;> rw [there] at before <;> try exact before.elim
      · have held := (locking reachable).call c there
        cases held.symm.trans enabled.2
      · by_contra unattended
        simp only [Attended, not_or, not_exists] at unattended
        refine keeps ⟨fun i will => unattended.2 i ?_, c, there⟩
        exact willNotify_stays (a := .call d .closeNow) (by simp [Action.actor]) will
    · refine attended_call ?_ closes
      by_cases acts : d = c
      · subst acts
        exact attended_of_acts reachable enabled (known d) waits
      · exact known c (waits_before (a := .call d step)
          (fun same => acts (Thread.call.inj same)) waits)

private theorem Quiet.hung (quiet : Quiet s)
    (reachable : (executor numThreads numCalls).Reachable s)
    (blocked : s.call c = .shutdownBlocked) : Hung s c where
  blocked := blocked
  empty := quiet.empty
  inactive := by
    refine (activeCount_eq_zero_iff reachable).mpr fun i => ?_
    have idle := quiet.idle i
    cases there : s.worker i <;> rw [there] at idle <;> first | rfl | exact (idle trivial).elim
  unnotified := fun _ _ run i => quiet.unnotified run i

/-- A dropped wake-up hangs a `shutdown` caller, at once or when it blocks. -/
theorem hung_of_drops (reachable : (executor numThreads numCalls).Reachable s)
    (enabled : (executor numThreads numCalls).Enabled s a) (drops : Drops s a) :
    ∃ bs t c, (executor numThreads numCalls).Run ((executor numThreads numCalls).next s a) bs t ∧
      Hung t c := by
  have later := reachable.next enabled
  rcases a with ⟨i, move⟩ | ⟨d, step⟩
  · cases move <;> try exact drops.elim
    obtain ⟨empty, only, c, mustBlock⟩ := drops
    have closed := closed_of_closing (c := c) reachable (by rw [mustBlock]; trivial)
    have quiet : Quiet (workerNext s i .notifyAll) := by
      refine ⟨closed, empty, fun j will => ?_⟩
      by_cases same : j = i
      · subst same
        simp [workerNext, setWorker, WorkerPc.WillNotify] at will
      · exact only j same ((willNotify_of_frame (workerNext_worker same)).mp will)
    have standing : (workerNext s i .notifyAll).call c = .shutdownMustBlock :=
      congrArg CallPc.wake mustBlock
    have blocks : (executor numThreads numCalls).Enabled (workerNext s i .notifyAll)
        (.call c .block) := standing
    exact ⟨[.call c .block], _, c, .single blocks,
      (quiet_next blocks quiet).hung (later.next blocks) (Function.update_self ..)⟩
  · cases step <;> try exact drops.elim
    obtain ⟨idle, c, blocked⟩ := drops
    have quiet : Quiet (callNext s d .closeNow) := ⟨rfl, rfl, idle⟩
    have ne : c ≠ d := by
      rintro rfl
      cases blocked.symm.trans enabled.1
    exact ⟨[], _, c, .nil _, quiet.hung later ((Function.update_of_ne ne _ _).trans blocked)⟩

/-- `shutdown` hangs on a finished pool exactly when a wake-up was dropped: a run none of whose
steps drops one reaches no hung caller, and a step that drops one leads to a hung caller. -/
theorem shutdown_hangs_iff_drops (numThreads numCalls : ℕ) :
    (∀ as s, (executor numThreads numCalls).Run {} as s →
      (∀ prior a rest mid, as = prior ++ a :: rest →
        (executor numThreads numCalls).Run {} prior mid → ¬Drops mid a) →
      ∀ c, ¬Hung s c) ∧
    ∀ s a, (executor numThreads numCalls).Reachable s →
      (executor numThreads numCalls).Enabled s a → Drops s a →
      ∃ bs t c, (executor numThreads numCalls).Run s (a :: bs) t ∧ Hung t c := by
  constructor
  · intro as s run keeps c hung
    have kept : ((executor numThreads numCalls).restrict fun s a => ¬Drops s a).Reachable s :=
      ⟨as, Machine.restrict_run_iff.mpr ⟨run, keeps⟩⟩
    rcases attended_of_waits (c := c) kept (by rw [hung.blocked]; trivial) with queued | ⟨i, will⟩
    · exact queued hung.empty
    · obtain ⟨bs, t, later, notified⟩ := exists_notifyAll will
      exact hung.unnotified bs t later i notified
  · intro s a reachable enabled drops
    obtain ⟨bs, t, c, run, hung⟩ := hung_of_drops reachable enabled drops
    exact ⟨bs, t, c, .cons enabled run, hung⟩

/-- The `shutdown` call `d` blocks while the worker is inside the task of call `c`; the worker then
counts down. -/
def attendedWait (i : Fin numThreads) (c d : Fin numCalls) : List (Action numThreads numCalls) :=
  [.call c (.begin .submit), .call c .push, .call c (.notifyOne none), .worker i .evaluate,
    .worker i (.take c), .worker i (.activate c), .call d (.begin .shutdown), .call d .close,
    .call d .announce, .call d .evaluate, .call d .block, .worker i (.finish c false),
    .worker i .deactivate]

/-- No step of that run drops a wake-up, so the blocked caller is not hung. -/
theorem shutdown_hangs_iff_drops_attended : ∃ s, (executor 1 2).Run {} (attendedWait 0 0 1) s ∧
    s.call 1 = .shutdownBlocked ∧ ¬Hung s 1 := by
  obtain ⟨s, run, blocked⟩ :=
    ((executor 1 2).restrict fun s a => ¬Drops s a).exists_run_of_replay {}
      (attendedWait 0 0 1) (fun s => s.call 1 = .shutdownBlocked) (by decide)
  obtain ⟨run, keeps⟩ := Machine.restrict_run_iff.mp run
  exact ⟨s, run, blocked, (shutdown_hangs_iff_drops 1 2).1 _ s run keeps 1⟩

/-- The same, but the worker counts down and notifies before the caller has blocked. -/
def lostWakeup (i : Fin numThreads) (c d : Fin numCalls) : List (Action numThreads numCalls) :=
  [.call c (.begin .submit), .call c .push, .call c (.notifyOne none), .worker i .evaluate,
    .worker i (.take c), .worker i (.activate c), .call d (.begin .shutdown), .call d .close,
    .call d .announce, .call d .evaluate, .worker i (.finish c false), .worker i .deactivate,
    .worker i .notifyAll, .call d .block]

/-- That run hangs the caller: the pool is finished and no worker will notify again. -/
theorem lostWakeup_hangs : ∃ s, (executor 1 2).Run {} (lostWakeup 0 0 1) s ∧ Hung s 1 := by
  obtain ⟨s, run, blocked, closed, empty, idle⟩ :=
    (executor 1 2).exists_run_of_replay {} (lostWakeup 0 0 1)
      (fun s => s.call 1 = .shutdownBlocked ∧ s.shutdownFlag = true ∧ s.taskQueue = [] ∧
        ∀ i, ¬(s.worker i).WillNotify) (by decide)
  exact ⟨s, run, Quiet.hung ⟨closed, empty, idle⟩ ⟨_, run⟩ blocked⟩

end Hanging

end ProtoJS.ThreadPoolExecutor
