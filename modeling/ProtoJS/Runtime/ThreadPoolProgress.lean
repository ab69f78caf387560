import ProtoJS.Runtime.ThreadPoolDelivery
import ProtoJS.Runtime.ThreadPoolWakeups

/-! # An open pool works off what it was given

While no thread is inside of `submit`, the steps of the workers alone, spurious wake-ups apart,
use up the work there is, and as long as an accepted task has not been run some worker can take
such a step. So no fair scheduler keeps a thread waiting for the future of an accepted task.
-/

namespace ProtoJS.ThreadPoolExecutor

open State

variable {numThreads numCalls : ℕ} {s : State numThreads numCalls}
  {i : Fin numThreads} {c : Fin numCalls} {move : WorkerStep numCalls}

section Holder

/-- The thread that holds `queueMutex` is inside of a locked region. -/
def InLockedRegion (s : State numThreads numCalls) : Thread numThreads numCalls → Prop
  | .worker i => (s.worker i).HoldsLock
  | .call c => s.call c = .shutdownMustBlock

private theorem inLockedRegion_next {t : Thread numThreads numCalls}
    {a : Action numThreads numCalls} (other : a.actor ≠ t) (inside : InLockedRegion s t) :
    InLockedRegion ((executor numThreads numCalls).next s a) t := by
  cases t with
  | worker i =>
    rcases worker_of_not_actor (s := s) other with same | ⟨blocked, _⟩
    · rw [InLockedRegion, same]
      exact inside
    · rw [InLockedRegion, blocked] at inside
      exact inside.elim
  | call c =>
    rcases call_of_not_actor (s := s) other with same | ⟨blocked, _⟩
    · rw [InLockedRegion, same]
      exact inside
    · rw [InLockedRegion, blocked] at inside
      cases inside

private theorem holder_worker (enabled : WorkerEnabled s i move) {t : Thread numThreads numCalls}
    (known : ∀ t, s.queueMutex = some t → InLockedRegion s t)
    (holds : (workerNext s i move).queueMutex = some t) :
    t ≠ .worker i ∨ InLockedRegion (workerNext s i move) t := by
  by_cases mine : t = .worker i
  · subst mine
    right
    have region (unlocked : ¬move.source.HoldsLock) (kept : s.queueMutex = some (.worker i)) :
        InLockedRegion (workerNext s i move) (.worker i) :=
      (unlocked (worker_source enabled ▸ known _ kept)).elim
    cases move with
    | evaluate =>
      rw [InLockedRegion, evaluate_worker]
      split <;> trivial
    | take task => simp [InLockedRegion, workerNext, setWorker, WorkerPc.HoldsLock]
    | block | exit | skip | activate task => cases holds
    | wakeSpuriously | finish task threw | deactivate | notifyAll => exact region id holds
  · exact .inl mine

/-- Whoever holds the lock between two steps is inside of a locked region. -/
theorem inLockedRegion_of_holds (reachable : (executor numThreads numCalls).Reachable s)
    {t : Thread numThreads numCalls} (holds : s.queueMutex = some t) : InLockedRegion s t := by
  refine reachable.invariant
    (P := fun s => ∀ t, s.queueMutex = some t → InLockedRegion s t) ?_ ?_ t holds
  · intro t none
    cases none
  intro s a reachable enabled known t holds
  have passive (other : a.actor ≠ t) (kept : s.queueMutex = some t) :
      InLockedRegion ((executor numThreads numCalls).next s a) t :=
    inLockedRegion_next other (known t kept)
  rcases a with ⟨i, move⟩ | ⟨c, step⟩
  · rcases holder_worker enabled known holds with other | inside
    · refine passive (fun same => other same.symm) ?_
      cases move with
      | evaluate => exact (other (Option.some.inj holds).symm).elim
      | block | exit | skip | activate task => cases holds
      | _ => exact holds
    · exact inside
  · have acting : CallEnabled s c step := enabled
    change (callNext s c step).queueMutex = some t at holds
    cases step with
    | evaluate =>
      simp only [callNext] at holds
      split at holds
      · exact passive (fun same => by
          have region := known t holds
          rw [← same, Action.actor, InLockedRegion, enabled.1] at region
          cases region) holds
      · rename_i undrained
        rw [← Option.some.inj holds]
        simp [InLockedRegion, executor, callNext, undrained, setCall]
    | block => cases holds
    | push =>
      have free : s.queueMutex = none := enabled.2
      have kept : (callNext s c .push).queueMutex = s.queueMutex := by
        simp only [callNext]
        split <;> rfl
      rw [kept, free] at holds
      cases holds
    | close => cases (show s.queueMutex = some t from holds).symm.trans enabled.2
    | closeNow => cases (show s.queueMutex = some t from holds).symm.trans enabled.2
    | notifyOne target =>
      have kept : s.queueMutex = some t := by rcases target with _ | _ | _ <;> exact holds
      refine passive (fun same => ?_) kept
      have region := known t kept
      rw [← same, Action.actor, InLockedRegion,
        show s.call c = .submitNotifying by rcases target with _ | _ <;> exact enabled.1] at region
      cases region
    | begin operation | announce | wakeSpuriously | join =>
      refine passive (fun same => ?_) holds
      have region := known t holds
      rw [← same] at region
      exact call_of_sources (P := (· ≠ .shutdownMustBlock)) acting
        (by simp [CallStep.sources]) region

end Holder

/-- A worker past a true evaluation of its wait predicate finds it true still. -/
theorem workAvailable_of_admitted (reachable : (executor numThreads numCalls).Reachable s)
    (there : s.worker i = .admitted) : s.taskQueue ≠ [] ∨ s.shutdownFlag = true := by
  revert there
  refine reachable.invariant (P := fun s => s.worker i = .admitted →
    s.taskQueue ≠ [] ∨ s.shutdownFlag = true) (fun there => ?_) ?_
  · cases there
  intro s a reachable enabled known there
  by_cases acts : a.actor = .worker i
  · cases a with
    | call c step => cases acts
    | worker j move =>
      cases acts
      cases move with
      | evaluate =>
        change (workerNext s i .evaluate).worker i = _ at there
        rw [evaluate_worker] at there
        split at there
        · next available =>
          have seen : s.taskQueue ≠ [] ∨ s.shutdownFlag = true := by
            simpa [workAvailable] using available
          exact seen
        · cases there
      | _ => simp [executor, workerNext, setWorker] at there
  · have before := worker_stays acts there (by simp)
    have held := (locking reachable).worker i (by rw [before]; trivial)
    have unchanged := (locking reachable).exclusion enabled held acts
    rw [unchanged.1, unchanged.2.1]
    exact known before

section Work

/-- The steps a worker can take before it needs another task, counting the workers it wakes. -/
def WorkerPc.work (numThreads : ℕ) : WorkerPc numCalls → ℕ
  | .exited | .blocked => 0
  | .mustBlock | .admitted => 1
  | .waiting => 2
  | .notifying => 2 * numThreads + 3
  | .finished => 2 * numThreads + 4
  | .running _ => 2 * numThreads + 5
  | .taken _ => 2 * numThreads + 6

/-- A bound on the steps of the workers until all of them are blocked. -/
def work (s : State numThreads numCalls) : ℕ :=
  (2 * numThreads + 6) * s.taskQueue.length + ∑ i, (s.worker i).work numThreads

/-- Moving one worker changes a sum over the workers by what that worker contributes. -/
theorem sum_setWorker (f : WorkerPc numCalls → ℕ) (s : State numThreads numCalls)
    (i : Fin numThreads) (pc : WorkerPc numCalls) :
    (∑ j, f ((s.setWorker i pc).worker j)) + f (s.worker i) = (∑ j, f (s.worker j)) + f pc := by
  have moved : (fun j => f ((s.setWorker i pc).worker j)) =
      Function.update (fun j => f (s.worker j)) i (f pc) := by
    funext j
    by_cases same : j = i
    · subst same
      simp [setWorker]
    · simp [setWorker, same]
  rw [moved, Finset.sum_update_of_mem (Finset.mem_univ i),
    Finset.sum_eq_add_sum_sdiff_singleton_of_mem (Finset.mem_univ i) (fun j => f (s.worker j))]
  omega

private theorem work_setWorker (s : State numThreads numCalls) (i : Fin numThreads)
    (pc : WorkerPc numCalls) :
    work (s.setWorker i pc) + (s.worker i).work numThreads = work s + pc.work numThreads := by
  have moved := sum_setWorker (WorkerPc.work numThreads) s i pc
  have queue : (s.setWorker i pc).taskQueue = s.taskQueue := rfl
  rw [work, work, queue]
  omega

private theorem work_notifyAll (s : State numThreads numCalls) :
    work s.notifyAll ≤ work s + 2 * numThreads := by
  have each (j : Fin numThreads) :
      (s.notifyAll.worker j).work numThreads ≤ (s.worker j).work numThreads + 2 := by
    change (s.worker j).wake.work numThreads ≤ _
    cases s.worker j <;> simp [WorkerPc.wake, WorkerPc.work]
  have all := Finset.sum_le_sum fun j (_ : j ∈ Finset.univ) => each j
  rw [Finset.sum_add_distrib, Finset.sum_const, Finset.card_univ, Fintype.card_fin,
    smul_eq_mul, mul_comm] at all
  have queue : s.notifyAll.taskQueue = s.taskQueue := rfl
  rw [work, work, queue]
  omega

/-- What only the queue and the places of the workers determine. -/
private theorem work_congr {t : State numThreads numCalls} (queue : t.taskQueue = s.taskQueue)
    (worker : t.worker = s.worker) : work t = work s := by
  rw [work, work, queue, worker]

/-- Each step of a worker of an open pool, but for a spurious wake-up, uses up some of the work. -/
theorem work_workerNext (reachable : (executor numThreads numCalls).Reachable s)
    (opened : s.shutdownFlag = false) (enabled : WorkerEnabled s i move)
    (awake : move ≠ .wakeSpuriously) : work (workerNext s i move) < work s := by
  have spent (pc : WorkerPc numCalls) (less : pc.work numThreads < move.source.work numThreads)
      (queue : (workerNext s i move).taskQueue = s.taskQueue)
      (worker : (workerNext s i move).worker = (s.setWorker i pc).worker) :
      work (workerNext s i move) < work s := by
    have moved := work_setWorker s i pc
    rw [worker_source enabled] at moved
    rw [work_congr (t := workerNext s i move) (s := s.setWorker i pc) queue worker]
    omega
  cases move with
  | wakeSpuriously => exact (awake rfl).elim
  | evaluate =>
    refine spent (if s.workAvailable then .admitted else .mustBlock) ?_ rfl rfl
    split <;> simp [WorkerPc.work, WorkerStep.source]
  | block => exact spent .blocked (by simp [WorkerPc.work, WorkerStep.source]) rfl rfl
  | exit =>
    have closed : s.shutdownFlag = true := by
      have test := enabled.2
      simp only [exitTest, Bool.and_eq_true] at test
      exact test.1
    cases opened.symm.trans closed
  | skip =>
    rcases workAvailable_of_admitted reachable enabled.1 with queued | closed
    · exact (queued enabled.2.2).elim
    · cases opened.symm.trans closed
  | take task =>
    obtain ⟨rest, queue⟩ := List.head?_eq_some_iff.mp enabled.2.2
    have moved := work_setWorker s i (.taken task)
    rw [show s.worker i = .admitted from enabled.1] at moved
    have shorter : work (workerNext s i (.take task)) + (2 * numThreads + 6) =
        work (s.setWorker i (.taken task)) := by
      simp only [work, workerNext, setWorker, queue, List.tail_cons, List.length_cons]
      rw [Nat.mul_add]
      omega
    simp only [WorkerPc.work] at moved
    omega
  | activate task =>
    exact spent (.running task) (by simp [WorkerPc.work, WorkerStep.source]) rfl rfl
  | finish task threw =>
    exact spent .finished (by simp [WorkerPc.work, WorkerStep.source]) rfl rfl
  | deactivate => exact spent .notifying (by simp [WorkerPc.work, WorkerStep.source]) rfl rfl
  | notifyAll =>
    have moved := work_setWorker s.notifyAll i .waiting
    have woken := work_notifyAll s
    have there : s.notifyAll.worker i = .notifying := by
      change (s.worker i).wake = _
      rw [show s.worker i = .notifying from enabled]
      rfl
    rw [there] at moved
    simp only [WorkerPc.work] at moved
    change work (s.notifyAll.setWorker i .waiting) < work s
    omega

/-- A spurious wake-up costs at most two steps. -/
theorem work_wakeSpuriously (there : s.worker i = .blocked) :
    work (workerNext s i .wakeSpuriously) = work s + 2 := by
  have moved := work_setWorker s i .waiting
  rw [there] at moved
  exact moved

end Work

section Progress

variable (s) in
/-- Some worker can take a step, a spurious wake-up aside. -/
def CanWork : Prop := ∃ i move, move ≠ .wakeSpuriously ∧ WorkerEnabled s i move

private theorem canWork_of_holdsLock (opened : s.shutdownFlag = false)
    (holds : (s.worker i).HoldsLock) : CanWork s := by
  cases there : s.worker i with
  | mustBlock => exact ⟨i, .block, by simp, there⟩
  | taken task => exact ⟨i, .activate task, by simp, there⟩
  | admitted =>
    have stays : s.exitTest = false := by simp [exitTest, opened]
    cases queue : s.taskQueue with
    | nil => exact ⟨i, .skip, by simp, there, stays, queue⟩
    | cons task rest => exact ⟨i, .take task, by simp, there, stays, by simp [queue]⟩
  | _ =>
    rw [there] at holds
    exact holds.elim

/-- In an open pool a worker that is not blocked can go on, or another one that holds the lock. -/
private theorem canWork_of_not_blocked (reachable : (executor numThreads numCalls).Reachable s)
    (opened : s.shutdownFlag = false) (awake : s.worker i ≠ .blocked) : CanWork s := by
  cases there : s.worker i with
  | blocked => exact (awake there).elim
  | waiting =>
    cases held : s.queueMutex with
    | none => exact ⟨i, .evaluate, by simp, there, held⟩
    | some t =>
      have inside := inLockedRegion_of_holds reachable held
      cases t with
      | worker j => exact canWork_of_holdsLock opened inside
      | call c =>
        have closed : s.shutdownFlag = true := by
          apply closed_of_closing (c := c) reachable
          rw [show s.call c = .shutdownMustBlock from inside]
          trivial
        cases opened.symm.trans closed
  | mustBlock => exact canWork_of_holdsLock (i := i) opened (by rw [there]; trivial)
  | admitted => exact canWork_of_holdsLock (i := i) opened (by rw [there]; trivial)
  | taken task => exact canWork_of_holdsLock (i := i) opened (by rw [there]; trivial)
  | running task => exact ⟨i, .finish task false, by simp, there⟩
  | finished => exact ⟨i, .deactivate, by simp, there⟩
  | notifying => exact ⟨i, .notifyAll, by simp, there⟩
  | exited => cases opened.symm.trans (closed_of_exited reachable there).1

/-- While an accepted task has not been run, and nobody is about to notify, a worker can step. -/
theorem canWork_of_unexecuted (positive : 0 < numThreads)
    (reachable : (executor numThreads numCalls).Reachable s) (opened : s.shutdownFlag = false)
    (notified : ∀ d, s.call d ≠ .submitNotifying) (pushed : c ∈ s.log.pushed)
    (unexecuted : ∀ i, (c, i) ∉ s.log.executed) : CanWork s := by
  have books := ledger reachable
  have kept : s.log.discarded = [] := by
    by_contra some
    cases opened.symm.trans (books.discards some).1
  have where' : c ∈ s.log.dequeued.map Prod.fst ∨ c ∈ s.taskQueue := by
    have split := books.accounts
    simp only [toChannel, kept, List.nil_append] at split
    rw [split] at pushed
    exact List.mem_append.mp pushed
  rcases where' with dequeued | queued
  · obtain ⟨⟨_, i⟩, member, rfl⟩ := List.mem_map.mp dequeued
    have unblocked : s.worker i ≠ .blocked := by
      intro blocked
      rcases (fates reachable).held _ member with started | taken
      · rcases (fates reachable).inside _ started with executed | running
        · exact unexecuted i executed
        · cases blocked.symm.trans running
      · cases blocked.symm.trans taken
    exact canWork_of_not_blocked reachable opened unblocked
  · by_contra stuck
    have blocked (i : Fin numThreads) : s.worker i = .blocked := by
      by_contra awake
      exact stuck (canWork_of_not_blocked reachable opened awake)
    rcases notifying_of_queued positive reachable (List.ne_nil_of_mem queued) blocked with
      closed | ⟨d, notifying⟩
    · cases opened.symm.trans closed
    · exact notified d notifying

end Progress

end ProtoJS.ThreadPoolExecutor
