import ProtoJS.Machine.Refinement
import ProtoJS.Machine.Channel
import ProtoJS.Runtime.ThreadPoolSteps

/-! # Every accepted task runs exactly once

The executor refines an exactly-once channel: a successful `submit` sends, a worker that moves
the front of the queue out delivers, `shutdown` closes, and `shutdownNow` closes and discards
what is pending. The ledger of the channel gives order and uniqueness of the deliveries. What
becomes of a delivered task is followed through the worker that holds it: it is moved out, then
entered, then left, each once, and a worker leaves its loop only through the exit test.
-/

namespace ProtoJS.ThreadPoolExecutor

open State

variable {numThreads numCalls : ℕ} {s t : State numThreads numCalls}
  {i : Fin numThreads} {c task : Fin numCalls}
  {move : WorkerStep numCalls} {step : CallStep numThreads numCalls}

/-- A `submit` call whose task is in the pool: it returns the future, or has returned it. -/
def CallPc.Accepted : CallPc → Prop
  | .submitNotifying | .submitReturned => True
  | _ => False

/-- A call of `shutdownNow`, at any of its steps. -/
def CallPc.OfShutdownNow : CallPc → Prop
  | .shutdownNowLocking | .shutdownNowNotifying | .shutdownNowJoining
  | .shutdownNowReturned => True
  | _ => False

instance : DecidablePred CallPc.OfShutdownNow
  | .shutdownNowLocking | .shutdownNowNotifying | .shutdownNowJoining | .shutdownNowReturned =>
    inferInstanceAs (Decidable True)
  | .idle | .submitLocking | .submitNotifying | .submitReturned | .submitThrew | .shutdownLocking
  | .shutdownNotifying | .shutdownWaiting | .shutdownMustBlock | .shutdownBlocked
  | .shutdownJoining | .shutdownReturned => inferInstanceAs (Decidable False)

section Channel

private theorem callNext_pushed (s : State numThreads numCalls) (c : Fin numCalls)
    (step : CallStep numThreads numCalls) :
    (callNext s c step).log.pushed =
      if step = .push ∧ s.shutdownFlag = false then s.log.pushed ++ [c] else s.log.pushed := by
  rcases callNext_cases s c step with ⟨rfl, opened⟩ | rfl | rfl | ⟨_, _, _, same⟩
  · simp [callNext, opened, setCall]
  · rfl
  · rfl
  · rw [same]
    by_cases pushes : step = .push ∧ s.shutdownFlag = false
    · obtain ⟨rfl, opened⟩ := pushes
      have pushed := congrArg (fun t => t.log.pushed) same
      simp [callNext, opened, setCall] at pushed
    · rw [if_neg pushes]

/-- No step but the locked region of `submit` makes a call accepted. -/
private theorem accepted_callNext (enabled : CallEnabled s c step) (other : step ≠ .push) :
    ((callNext s c step).call c).Accepted ↔ (s.call c).Accepted := by
  cases step with
  | push => exact (other rfl).elim
  | begin operation =>
    rw [show s.call c = .idle from enabled]
    cases operation <;> simp [callNext, setCall, Operation.entry, CallPc.Accepted]
  | notifyOne target =>
    have notifying : s.call c = .submitNotifying := by
      rcases target with _ | _ <;> exact enabled.1
    rw [notifying]
    rcases target with _ | _ | _ <;> simp [callNext, setCall, CallPc.Accepted]
  | announce =>
    rcases enabled with there | there <;> simp [callNext, setCall, there, CallPc.Accepted]
  | evaluate =>
    rw [enabled.1]
    simp only [callNext]
    split <;> simp [setCall, CallPc.Accepted]
  | join =>
    rcases enabled.1 with there | there <;> simp [callNext, setCall, there, CallPc.Accepted]
  | close | closeNow => simp [callNext, setCall, enabled.1, CallPc.Accepted]
  | block | wakeSpuriously =>
    rw [show s.call c = _ from enabled]
    simp [callNext, setCall, CallPc.Accepted]

/-- The tasks pushed so far are those of the accepted calls. -/
theorem mem_pushed_iff (reachable : (executor numThreads numCalls).Reachable s) :
    c ∈ s.log.pushed ↔ (s.call c).Accepted := by
  refine reachable.invariant (P := fun s => c ∈ s.log.pushed ↔ (s.call c).Accepted)
    ⟨fun member => (nomatch member), fun accepted => False.elim accepted⟩ ?_
  intro s a _ enabled accepted
  have others (other : a.actor ≠ .call c) :
      (((executor numThreads numCalls).next s a).call c).Accepted ↔ (s.call c).Accepted := by
    rcases call_of_not_actor (s := s) other with same | ⟨before, after⟩
    · rw [same]
    · rw [before, after]
      exact Iff.rfl
  rcases a with ⟨i, move⟩ | ⟨d, step⟩
  · rw [others (by simp [Action.actor]), ← accepted]
    exact iff_of_eq (congrArg (c ∈ ·) workerNext_pushed)
  · change c ∈ (callNext s d step).log.pushed ↔ _
    rw [callNext_pushed]
    by_cases same : c = d
    · subst same
      by_cases pushes : step = .push
      · subst pushes
        rw [show s.call c = .submitLocking from enabled.1] at accepted
        cases flag : s.shutdownFlag with
        | false => simp [executor, callNext, flag, setCall, CallPc.Accepted]
        | true => simpa [executor, callNext, flag, setCall, CallPc.Accepted] using accepted
      · rw [if_neg (fun both => pushes both.1), accepted]
        exact (accepted_callNext enabled pushes).symm
    · rw [others (fun acts => same (Thread.call.inj acts).symm), ← accepted]
      split
      · simp [same]
      · exact Iff.rfl

/-- The channel a state of the executor stands for. -/
def toChannel (s : State numThreads numCalls) : Channel.State (Fin numCalls) where
  sent := s.log.pushed
  delivered := s.log.dequeued.map Prod.fst
  discarded := s.log.discarded
  pending := s.taskQueue
  closed := s.shutdownFlag

/-- What a step does to the channel. -/
def toChannelActions (s : State numThreads numCalls) :
    Action numThreads numCalls → List (Channel.Action (Fin numCalls))
  | .worker _ (.take _) => [.deliver]
  | .call c .push => if s.shutdownFlag then [] else [.send c]
  | .call _ .close => [.close]
  | .call _ .closeNow => [.close, .discard]
  | _ => []

private theorem toChannel_worker (enabled : WorkerEnabled s i move) :
    (Channel.machine (Fin numCalls)).Run (toChannel s) (toChannelActions s (.worker i move))
      (toChannel (workerNext s i move)) := by
  cases move with
  | take task =>
    obtain ⟨rest, queue⟩ : ∃ rest, s.taskQueue = task :: rest :=
      List.head?_eq_some_iff.mp enabled.2.2
    have delivered : toChannel (workerNext s i (.take task)) =
        Channel.next (toChannel s) .deliver := by
      simp [toChannel, workerNext, Channel.next, setWorker, queue]
    rw [delivered]
    refine .single (m := Channel.machine _) (a := .deliver) ?_
    simp [Channel.machine, Channel.Enabled, toChannel, queue]
  | _ => exact .nil _

private theorem toChannel_call (reachable : (executor numThreads numCalls).Reachable s)
    (enabled : CallEnabled s c step) :
    (Channel.machine (Fin numCalls)).Run (toChannel s) (toChannelActions s (.call c step))
      (toChannel (callNext s c step)) := by
  cases step with
  | push =>
    cases flag : s.shutdownFlag with
    | true =>
      simp only [toChannelActions, callNext, flag, ↓reduceIte]
      exact .nil _
    | false =>
      have fresh : c ∉ s.log.pushed := by
        rw [mem_pushed_iff reachable, enabled.1]
        exact id
      simp only [toChannelActions, callNext, flag, Bool.false_eq_true, ↓reduceIte]
      exact .single (m := Channel.machine _) (a := .send c) ⟨flag, fresh⟩
  | notifyOne target => rcases target with _ | _ | _ <;> exact .nil _
  | evaluate => simp only [callNext, toChannelActions]; split <;> exact .nil _
  | close => exact .single (m := Channel.machine _) (a := .close) trivial
  | closeNow =>
    refine .cons (a := Channel.Action.close) trivial
      (.cons (a := Channel.Action.discard) ?_ (.nil _))
    rfl
  | _ => exact .nil _

/-- The executor refines the exactly-once channel. -/
def channelRefinement (numThreads numCalls : ℕ) :
    (executor numThreads numCalls).Refinement (Channel.machine (Fin numCalls)) where
  abs := toChannel
  emits := toChannelActions
  initial := rfl
  step s a reachable enabled := by
    cases a with
    | worker i move => exact toChannel_worker enabled
    | call c step => exact toChannel_call reachable enabled

/-- The ledger of the channel, read off the executor. -/
theorem ledger (reachable : (executor numThreads numCalls).Reachable s) :
    Channel.Ledger (toChannel s) :=
  Channel.ledger ((channelRefinement numThreads numCalls).reachable reachable)

end Channel

section Fate

/-- Where the tasks that left the queue are. -/
structure Fates (s : State numThreads numCalls) : Prop where
  taken : ∀ i task, s.worker i = .taken task →
    (task, i) ∈ s.log.dequeued ∧ (task, i) ∉ s.log.started
  running : ∀ i task, s.worker i = .running task →
    (task, i) ∈ s.log.started ∧ (task, i) ∉ s.log.executed
  started : ∀ entry ∈ s.log.started, entry ∈ s.log.dequeued
  executed : ∀ entry ∈ s.log.executed, entry ∈ s.log.started
  held : ∀ entry ∈ s.log.dequeued, entry ∈ s.log.started ∨ s.worker entry.2 = .taken entry.1
  inside : ∀ entry ∈ s.log.started, entry ∈ s.log.executed ∨ s.worker entry.2 = .running entry.1
  nodup : s.log.started.Nodup ∧ s.log.executed.Nodup

/-- Away from the worker that steps, a task is held as before. -/
private theorem held_iff {j : Fin numThreads} (other : j ≠ i) {pc : WorkerPc numCalls}
    (past : pc ≠ .waiting) (unblocked : pc ≠ .blocked) :
    (workerNext s i move).worker j = pc ↔ s.worker j = pc :=
  WorkerPc.eq_iff_of_frame (workerNext_worker other) past unblocked

/-- A worker at another place than the step is taken from keeps its task. -/
private theorem held_next {j : Fin numThreads} {pc : WorkerPc numCalls}
    (enabled : WorkerEnabled s i move) (there : s.worker j = pc) (other : pc ≠ move.source)
    (past : pc ≠ .waiting) (unblocked : pc ≠ .blocked) : (workerNext s i move).worker j = pc := by
  refine (held_iff ?_ past unblocked).mpr there
  rintro rfl
  exact other (there.symm.trans (worker_source enabled))

/-- A worker found at another place than the step leads to was there before. -/
private theorem held_before {j : Fin numThreads} {pc target : WorkerPc numCalls}
    (here : (workerNext s i move).worker i = target)
    (there : (workerNext s i move).worker j = pc) (other : pc ≠ target)
    (past : pc ≠ .waiting) (unblocked : pc ≠ .blocked) : j ≠ i ∧ s.worker j = pc := by
  have ne : j ≠ i := by
    rintro rfl
    exact other (there.symm.trans here)
  exact ⟨ne, (held_iff ne past unblocked).mp there⟩

/-- A step that changes no log and no held task keeps the fates. -/
private theorem Fates.congr (fates : Fates s)
    (log : t.log.dequeued = s.log.dequeued ∧ t.log.started = s.log.started ∧
      t.log.executed = s.log.executed)
    (taken : ∀ i task, t.worker i = .taken task ↔ s.worker i = .taken task)
    (running : ∀ i task, t.worker i = .running task ↔ s.worker i = .running task) :
    Fates t := by
  obtain ⟨dequeued, started, executed⟩ := log
  constructor
  · intro i task there
    rw [dequeued, started]
    exact fates.taken i task ((taken i task).mp there)
  · intro i task there
    rw [started, executed]
    exact fates.running i task ((running i task).mp there)
  · rw [dequeued, started]
    exact fates.started
  · rw [started, executed]
    exact fates.executed
  · rw [dequeued, started]
    intro entry member
    exact (fates.held entry member).imp_right (taken _ _).mpr
  · rw [started, executed]
    intro entry member
    exact (fates.inside entry member).imp_right (running _ _).mpr
  · rw [started, executed]
    exact fates.nodup

private theorem fates_take (ledger : Channel.Ledger (toChannel s))
    (enabled : WorkerEnabled s i (.take task)) (fates : Fates s) :
    Fates (workerNext s i (.take task)) := by
  have here : (workerNext s i (.take task)).worker i = .taken task := Function.update_self ..
  have fresh : (task, i) ∉ s.log.dequeued := by
    have pending : task ∈ s.taskQueue := List.mem_of_head? enabled.2.2
    exact fun member => ledger.pending_disjoint pending (List.mem_map_of_mem (f := Prod.fst) member)
  constructor
  · intro j task' there
    by_cases same : j = i
    · subst same
      cases here.symm.trans there
      exact ⟨List.mem_append_right _ (List.mem_singleton_self _),
        fun member => fresh (fates.started _ member)⟩
    · obtain ⟨dequeued, unstarted⟩ :=
        fates.taken j task' ((held_iff same (by simp) (by simp)).mp there)
      exact ⟨List.mem_append_left _ dequeued, unstarted⟩
  · intro j task' there
    exact fates.running j task' (held_before here there (by simp) (by simp) (by simp)).2
  · exact fun entry member => List.mem_append_left _ (fates.started entry member)
  · exact fates.executed
  · intro entry member
    rcases List.mem_append.mp member with old | new
    · refine (fates.held entry old).imp_right fun there => ?_
      exact held_next enabled there (by simp [WorkerStep.source]) (by simp) (by simp)
    · rw [List.mem_singleton.mp new]
      exact .inr here
  · intro entry member
    refine (fates.inside entry member).imp_right fun there => ?_
    exact held_next enabled there (by simp [WorkerStep.source]) (by simp) (by simp)
  · exact fates.nodup

private theorem fates_activate (enabled : WorkerEnabled s i (.activate task)) (fates : Fates s) :
    Fates (workerNext s i (.activate task)) := by
  have here : (workerNext s i (.activate task)).worker i = .running task :=
    Function.update_self ..
  obtain ⟨dequeued, unstarted⟩ := fates.taken i task enabled
  constructor
  · intro j task' there
    obtain ⟨other, before⟩ := held_before here there (by simp) (by simp) (by simp)
    obtain ⟨dequeued, unstarted⟩ := fates.taken j task' before
    refine ⟨dequeued, fun member => ?_⟩
    rcases List.mem_append.mp member with old | new
    · exact unstarted old
    · exact other (congrArg Prod.snd (List.mem_singleton.mp new))
  · intro j task' there
    by_cases same : j = i
    · subst same
      cases here.symm.trans there
      exact ⟨List.mem_append_right _ (List.mem_singleton_self _),
        fun member => unstarted (fates.executed _ member)⟩
    · obtain ⟨started, unexecuted⟩ :=
        fates.running j task' ((held_iff same (by simp) (by simp)).mp there)
      exact ⟨List.mem_append_left _ started, unexecuted⟩
  · intro entry member
    rcases List.mem_append.mp member with old | new
    · exact fates.started entry old
    · rw [List.mem_singleton.mp new]
      exact dequeued
  · exact fun entry member => List.mem_append_left _ (fates.executed entry member)
  · intro entry member
    rcases fates.held entry member with started | there
    · exact .inl (List.mem_append_left _ started)
    · by_cases same : entry.2 = i
      · rw [same, enabled] at there
        have entered : entry = (task, i) := Prod.ext (WorkerPc.taken.inj there).symm same
        exact .inl (List.mem_append_right _ (List.mem_singleton.mpr entered))
      · exact .inr ((held_iff same (by simp) (by simp)).mpr there)
  · intro entry member
    rcases List.mem_append.mp member with old | new
    · refine (fates.inside entry old).imp_right fun there => ?_
      exact held_next enabled there (by simp [WorkerStep.source]) (by simp) (by simp)
    · rw [List.mem_singleton.mp new]
      exact .inr here
  · exact ⟨fates.nodup.1.append (List.nodup_singleton _)
      (List.disjoint_singleton.mpr unstarted), fates.nodup.2⟩

private theorem fates_finish {threw : Bool} (enabled : WorkerEnabled s i (.finish task threw))
    (fates : Fates s) : Fates (workerNext s i (.finish task threw)) := by
  have here : (workerNext s i (.finish task threw)).worker i = .finished :=
    Function.update_self ..
  obtain ⟨started, unexecuted⟩ := fates.running i task enabled
  constructor
  · intro j task' there
    exact fates.taken j task' (held_before here there (by simp) (by simp) (by simp)).2
  · intro j task' there
    obtain ⟨other, before⟩ := held_before here there (by simp) (by simp) (by simp)
    obtain ⟨started, unexecuted⟩ := fates.running j task' before
    refine ⟨started, fun member => ?_⟩
    rcases List.mem_append.mp member with old | new
    · exact unexecuted old
    · exact other (congrArg Prod.snd (List.mem_singleton.mp new))
  · exact fates.started
  · intro entry member
    rcases List.mem_append.mp member with old | new
    · exact fates.executed entry old
    · rw [List.mem_singleton.mp new]
      exact started
  · intro entry member
    refine (fates.held entry member).imp_right fun there => ?_
    exact held_next enabled there (by simp [WorkerStep.source]) (by simp) (by simp)
  · intro entry member
    rcases fates.inside entry member with executed | there
    · exact .inl (List.mem_append_left _ executed)
    · by_cases same : entry.2 = i
      · rw [same, enabled] at there
        have left : entry = (task, i) := Prod.ext (WorkerPc.running.inj there).symm same
        exact .inl (List.mem_append_right _ (List.mem_singleton.mpr left))
      · exact .inr ((held_iff same (by simp) (by simp)).mpr there)
  · exact ⟨fates.nodup.1, fates.nodup.2.append (List.nodup_singleton _)
      (List.disjoint_singleton.mpr unexecuted)⟩

/-- The places of a worker that has moved a task out and not left it. -/
def WorkerPc.HoldsTask : WorkerPc numCalls → Prop
  | .taken _ | .running _ => True
  | _ => False

/-- A step of a worker that holds no task before or after it keeps the fates. -/
private theorem fates_unheld (fates : Fates s) (log : (workerNext s i move).log = s.log)
    (before : ¬(s.worker i).HoldsTask) (after : ¬((workerNext s i move).worker i).HoldsTask) :
    Fates (workerNext s i move) := by
  have places (pc : WorkerPc numCalls) (holds : pc.HoldsTask) (j : Fin numThreads) :
      (workerNext s i move).worker j = pc ↔ s.worker j = pc := by
    by_cases same : j = i
    · subst same
      exact iff_of_false (fun there => after (there ▸ holds)) (fun there => before (there ▸ holds))
    · refine held_iff same ?_ ?_ <;> rintro rfl <;> exact holds
  exact fates.congr (by rw [log]; exact ⟨rfl, rfl, rfl⟩)
    (fun j task => places (.taken task) trivial j)
    (fun j task => places (.running task) trivial j)

private theorem fates_worker (ledger : Channel.Ledger (toChannel s))
    (enabled : WorkerEnabled s i move) (fates : Fates s) : Fates (workerNext s i move) := by
  have unheld (log : (workerNext s i move).log = s.log) {after : WorkerPc numCalls}
      (target : (workerNext s i move).worker i = after) (source : ¬move.source.HoldsTask)
      (free : ¬after.HoldsTask) : Fates (workerNext s i move) :=
    fates_unheld fates log (worker_source enabled ▸ source) (target ▸ free)
  cases move with
  | take task => exact fates_take ledger enabled fates
  | activate task => exact fates_activate enabled fates
  | finish task threw => exact fates_finish enabled fates
  | evaluate =>
    apply unheld rfl evaluate_worker id
    split <;> exact id
  | block | wakeSpuriously | exit | skip | deactivate | notifyAll =>
    exact unheld rfl (Function.update_self ..) id id

/-- In every reachable state the tasks that left the queue are accounted for. -/
theorem fates (reachable : (executor numThreads numCalls).Reachable s) : Fates s := by
  have start : Fates (executor numThreads numCalls).initial := by
    constructor <;> simp [executor]
  apply reachable.invariant start
  intro s a reachable enabled fates
  rcases a with ⟨i, move⟩ | ⟨c, step⟩
  · exact fates_worker (ledger reachable) enabled fates
  · have places {pc : WorkerPc numCalls} (past : pc ≠ .waiting) (unblocked : pc ≠ .blocked)
        (j : Fin numThreads) : (callNext s c step).worker j = pc ↔ s.worker j = pc :=
      WorkerPc.eq_iff_of_frame callNext_worker past unblocked
    refine fates.congr ?_ (fun j task => places (by simp) (by simp) j)
      (fun j task => places (by simp) (by simp) j)
    change (callNext s c step).log.dequeued = _ ∧ (callNext s c step).log.started = _ ∧
      (callNext s c step).log.executed = _
    rcases callNext_cases s c step with ⟨rfl, opened⟩ | rfl | rfl | ⟨_, _, _, same⟩
    · simp [callNext, opened, setCall]
    · exact ⟨rfl, rfl, rfl⟩
    · exact ⟨rfl, rfl, rfl⟩
    · rw [same]
      exact ⟨rfl, rfl, rfl⟩

end Fate

section Delivery

/-- No task leaves the queue twice, by whichever workers. -/
theorem dequeued_once (reachable : (executor numThreads numCalls).Reachable s) :
    (s.log.dequeued.map Prod.fst).Nodup :=
  (ledger reachable).delivered_nodup

private theorem fst_injOn (reachable : (executor numThreads numCalls).Reachable s)
    {left right : Fin numCalls × Fin numThreads} (first : left ∈ s.log.dequeued)
    (second : right ∈ s.log.dequeued) (same : left.1 = right.1) : left = right :=
  List.inj_on_of_nodup_map (dequeued_once reachable) first second same

/-- No task is executed twice. -/
theorem executed_once (reachable : (executor numThreads numCalls).Reachable s) :
    (s.log.executed.map Prod.fst).Nodup := by
  have dequeued (entry : Fin numCalls × Fin numThreads) (member : entry ∈ s.log.executed) :
      entry ∈ s.log.dequeued :=
    (fates reachable).started _ ((fates reachable).executed _ member)
  apply (fates reachable).nodup.2.map_on
  intro left first right second same
  exact fst_injOn reachable (dequeued _ first) (dequeued _ second) same

private theorem discarded_next {a : Action numThreads numCalls} (member : task ∈ s.log.discarded) :
    task ∈ ((executor numThreads numCalls).next s a).log.discarded := by
  rcases a with ⟨i, move⟩ | ⟨c, step⟩
  · cases move <;> exact member
  · change task ∈ (callNext s c step).log.discarded
    rcases callNext_cases s c step with ⟨rfl, opened⟩ | rfl | rfl | ⟨_, _, _, same⟩
    · simpa [callNext, opened, setCall] using member
    · exact member
    · exact List.mem_append_left _ member
    · rw [same]
      exact member

/-- A task removed by `shutdownNow` is not entered, now or later. -/
theorem discarded_never_started (reachable : (executor numThreads numCalls).Reachable s)
    (member : task ∈ s.log.discarded) {as : List (Action numThreads numCalls)}
    (run : (executor numThreads numCalls).Run s as t) : (task, i) ∉ t.log.started := by
  have later : task ∈ t.log.discarded :=
    run.preserves (P := fun s => task ∈ s.log.discarded) member
      (fun _ _ _ member => discarded_next member)
  intro started
  exact (ledger (reachable.run run)).discarded_disjoint later
    (List.mem_map_of_mem (f := Prod.fst) ((fates (reachable.run run)).started _ started))

/-- Whether its task returns or throws, the worker goes on to the top of its loop. -/
theorem worker_survives (there : s.worker i = .running task) (threw : Bool) :
    ∃ t, (executor numThreads numCalls).Run s [.worker i (.finish task threw),
      .worker i .deactivate, .worker i .notifyAll] t ∧ t.worker i = .waiting := by
  refine ⟨_, .cons there (.cons ?_ (.cons ?_ (.nil _))), Function.update_self ..⟩
  · exact Function.update_self ..
  · exact Function.update_self ..

private theorem ofShutdownNow_next {a : Action numThreads numCalls}
    (enabled : (executor numThreads numCalls).Enabled s a) (called : (s.call c).OfShutdownNow) :
    (((executor numThreads numCalls).next s a).call c).OfShutdownNow := by
  by_cases acts : a.actor = .call c
  · rcases a with _ | ⟨d, step⟩ <;> cases acts
    have acting : CallEnabled s c step := enabled
    cases step with
    | closeNow => simp [executor, callNext, setCall, CallPc.OfShutdownNow]
    | announce =>
      rcases acting with there | there
      · rw [there] at called
        exact called.elim
      · simp [executor, callNext, setCall, there, CallPc.OfShutdownNow]
    | join =>
      rcases acting.1 with there | there
      · rw [there] at called
        exact called.elim
      · simp [executor, callNext, setCall, there, CallPc.OfShutdownNow]
    | _ =>
      exact (call_of_sources (P := (¬CallPc.OfShutdownNow ·)) acting
        (by simp [CallStep.sources, CallPc.OfShutdownNow]) called).elim
  · rcases call_of_not_actor (s := s) acts with same | ⟨before, _⟩
    · exact same ▸ called
    · rw [before] at called
      exact called.elim

/-- Without a call of `shutdownNow` nothing is discarded and its flag stays down. -/
theorem kept_of_no_shutdownNow (reachable : (executor numThreads numCalls).Reachable s)
    (uncalled : ∀ c, ¬(s.call c).OfShutdownNow) :
    s.shutdownNowFlag = false ∧ s.log.discarded = [] := by
  by_contra broken
  have called : ¬(s.shutdownNowFlag = false ∧ s.log.discarded = []) →
      ∃ c, (s.call c).OfShutdownNow := by
    refine reachable.invariant (P := fun s => ¬(s.shutdownNowFlag = false ∧ s.log.discarded = []) →
      ∃ c, (s.call c).OfShutdownNow) (fun broken => (broken ⟨rfl, rfl⟩).elim) ?_
    intro s a _ enabled known broken
    have carried (old : ¬(s.shutdownNowFlag = false ∧ s.log.discarded = [])) :
        ∃ c, (((executor numThreads numCalls).next s a).call c).OfShutdownNow := by
      obtain ⟨c, called⟩ := known old
      exact ⟨c, ofShutdownNow_next enabled called⟩
    rcases a with ⟨i, move⟩ | ⟨c, step⟩
    · cases move <;> exact carried broken
    · change ¬((callNext s c step).shutdownNowFlag = false ∧
        (callNext s c step).log.discarded = []) at broken
      rcases callNext_cases s c step with ⟨rfl, opened⟩ | rfl | rfl | ⟨_, _, _, same⟩
      · apply carried
        simpa [callNext, opened, setCall] using broken
      · exact carried broken
      · exact ⟨c, by simp [executor, callNext, setCall, CallPc.OfShutdownNow]⟩
      · rw [same] at broken
        exact carried broken
  obtain ⟨c, now⟩ := called broken
  exact uncalled c now

/-- Once every worker of a pool has left, without `shutdownNow`, every accepted task was run. -/
theorem executed_of_exited (positive : 0 < numThreads)
    (reachable : (executor numThreads numCalls).Reachable s)
    (uncalled : ∀ c, ¬(s.call c).OfShutdownNow) (exited : ∀ i, s.worker i = .exited)
    (accepted : (s.call c).Accepted) : ∃ i, (c, i) ∈ s.log.executed := by
  obtain ⟨now, kept⟩ := kept_of_no_shutdownNow reachable uncalled
  have drained : s.taskQueue = [] := by
    rcases (closed_of_exited reachable (exited ⟨0, positive⟩)).2 with empty | immediate
    · exact empty
    · rw [now] at immediate
      contradiction
  have sent : c ∈ (toChannel s).sent := (mem_pushed_iff reachable).mpr accepted
  obtain ⟨⟨_, i⟩, dequeued, rfl⟩ := List.mem_map.mp
    ((ledger reachable).delivered_of_sent kept drained sent)
  refine ⟨i, ?_⟩
  have outside {pc : WorkerPc numCalls} (there : s.worker i = pc) (other : pc ≠ .exited) {P : Prop} :
      P := (other (there.symm.trans (exited i))).elim
  rcases (fates reachable).held _ dequeued with started | there
  · rcases (fates reachable).inside _ started with executed | there
    · exact executed
    · exact outside there (by simp)
  · exact outside there (by simp)

/-- The executor runs each task exactly once, over every interleaving of submitters, workers and
both kinds of shutdown. -/
theorem runs_each_task_exactly_once {start : State numThreads numCalls}
    {as : List (Action numThreads numCalls)} (constructed : construct numThreads numCalls = some start)
    (run : (executor numThreads numCalls).Run start as s) :
    -- dequeued at most once and by one worker, in the order of the pushes, executed at most once
    (s.log.dequeued.map Prod.fst).Nodup ∧ s.log.dequeued.map Prod.fst <+: s.log.pushed ∧
      (s.log.executed.map Prod.fst).Nodup ∧
      -- `submit` after a shutdown throws and changes nothing else
      (∀ c, (executor numThreads numCalls).Enabled s (.call c .push) → s.shutdownFlag = true →
        (executor numThreads numCalls).next s (.call c .push) = s.setCall c .submitThrew) ∧
      -- what `shutdownNow` removed is never entered
      (∀ task ∈ s.log.discarded, ∀ i bs t, (executor numThreads numCalls).Run s bs t →
        (task, i) ∉ t.log.started) ∧
      -- a worker survives a task that throws
      (∀ i task, s.worker i = .running task → ∃ t, (executor numThreads numCalls).Run s
        [.worker i (.finish task true), .worker i .deactivate, .worker i .notifyAll] t ∧
          t.worker i = .waiting) ∧
      -- no accepted task is left behind
      ((∀ c, ¬(s.call c).OfShutdownNow) → (∀ i, s.worker i = .exited) →
        ∀ c, (s.call c).Accepted → ∃ i, (c, i) ∈ s.log.executed) := by
  obtain ⟨positive, rfl⟩ := construct_eq_some constructed
  have reachable : (executor numThreads numCalls).Reachable s := ⟨as, run⟩
  refine ⟨dequeued_once reachable, (ledger reachable).delivered_isPrefix, executed_once reachable,
    ?_, ?_, ?_, ?_⟩
  · intro c _ closed
    simp only [executor, callNext, closed, ↓reduceIte]
  · exact fun task member i bs t later => discarded_never_started reachable member later
  · exact fun i task there => worker_survives there true
  · intro uncalled exited c accepted
    exact executed_of_exited positive reachable uncalled exited accepted

/-- The worker runs the task of call `c`, which throws, then call `d` shuts down and the worker
leaves. -/
def throwingRun (i : Fin numThreads) (c d : Fin numCalls) : List (Action numThreads numCalls) :=
  [.call c (.begin .submit), .call c .push, .call c (.notifyOne none), .worker i .evaluate,
    .worker i (.take c), .worker i (.activate c), .worker i (.finish c true), .worker i .deactivate,
    .worker i .notifyAll, .call d (.begin .shutdown), .call d .close, .call d .announce,
    .worker i .evaluate, .worker i .exit]

/-- The theorem applied to that run: the accepted task was executed. -/
theorem runs_each_task_exactly_once_throwing :
    ∃ s, (executor 1 2).Run {} (throwingRun 0 0 1) s ∧ ∃ i, (0, i) ∈ s.log.executed := by
  obtain ⟨s, run, uncalled, exited, accepted⟩ :=
    (executor 1 2).exists_run_of_replay {} (throwingRun 0 0 1)
      (fun s => (∀ c, ¬(s.call c).OfShutdownNow) ∧ (∀ i, s.worker i = .exited) ∧
        s.call 0 = .submitReturned) (by decide)
  have delivered := (runs_each_task_exactly_once rfl run).2.2.2.2.2.2
  exact ⟨s, run, delivered uncalled exited 0 (by rw [accepted]; trivial)⟩

end Delivery

end ProtoJS.ThreadPoolExecutor
