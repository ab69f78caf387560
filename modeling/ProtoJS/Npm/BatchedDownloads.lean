import ProtoJS.Machine.Run
import ProtoJS.Npm.TarballPaths

/-! # Downloads in batches

`downloadPackages` starts a batch of tasks, one a spec, and waits for all of them before it starts
the next. What a call of `downloadPackage` does is left open here: it ends with any outcome, at any
time. A future whose call has thrown throws again in `get`; the futures that are left are destroyed
and wait for their tasks.
-/

namespace ProtoJS.Npm

namespace NPMRegistry

/-- Where the lambda of a task stands. -/
inductive Stage
  | launched
  | calling
  | writing (ok : Bool)
  | ready (outcome : Except Failure Bool)
deriving DecidableEq

/-- What the lambda does next. -/
inductive Turn
  | call
  | finish (outcome : Except Failure Bool)
  | write
deriving DecidableEq

def Stage.advance : Stage → Turn → Option Stage
  | .launched, .call => some .calling
  | .calling, .finish (.ok ok) => some (.writing ok)
  | .calling, .finish (.error e) => some (.ready (.error e))
  | .writing ok, .write => some (.ready (.ok ok))
  | _, _ => none

/-- What the lambda has captured, `idx` by value. -/
structure Task where
  s : DownloadSpec
  idx : ℕ
  stage : Stage := .launched
deriving DecidableEq

/-- The assignment to the slot of the task. -/
def Task.store (task : Task) (results : List Bool) : List Bool :=
  match task.stage with
  | .writing ok => results.set task.idx ok
  | _ => results

/-- The thread that waits: when `get` has thrown, the batch is still to be destroyed. -/
inductive Phase
  | running
  | unwinding (e : Failure)
  | threw (e : Failure)
deriving DecidableEq

/-- `start` is the first task of the batch, and `got` the first whose `get` has not returned. -/
structure BatchState where
  phase : Phase := .running
  next : ℕ := 0
  start : ℕ := 0
  got : ℕ := 0
  /-- In the order in which they were launched. -/
  tasks : ℕ → Option Task := fun _ => none
  results : List Bool

inductive BatchAction
  | launch
  | get
  /-- The batch goes out of scope. -/
  | join
  | unwind
  /-- A task goes on. -/
  | turn (k : ℕ) (turn : Turn)
deriving DecidableEq

def BatchState.stage (s : BatchState) (k : ℕ) : Option Stage := (s.tasks k).map Task.stage

def BatchState.Ready (s : BatchState) (k : ℕ) : Prop := ∃ outcome, s.stage k = some (.ready outcome)

/-- The arguments of `downloadPackages`. -/
structure DownloadCall where
  specs : List DownloadSpec
  maxConcurrency : ℕ

namespace DownloadCall

variable (call : DownloadCall)

def batchSize : ℕ := if call.maxConcurrency = 0 then 1 else call.maxConcurrency

/-- The loop that launches has ended. -/
def Full (s : BatchState) : Prop :=
  s.next = call.specs.length ∨ s.next = s.start + call.batchSize

def Enabled (s : BatchState) : BatchAction → Prop
  | .launch =>
    s.phase = .running ∧ s.next < call.specs.length ∧ s.next < s.start + call.batchSize
  | .get => s.phase = .running ∧ call.Full s ∧ s.got < s.next ∧ s.Ready s.got
  | .join => s.phase = .running ∧ call.Full s ∧ s.start < s.next ∧ s.got = s.next
  | .unwind => (∃ e, s.phase = .unwinding e) ∧ ∀ k, s.start ≤ k → k < s.next → s.Ready k
  | .turn k turn => ∃ task, s.tasks k = some task ∧ (task.stage.advance turn).isSome

def next (s : BatchState) : BatchAction → BatchState
  | .launch =>
    { s with
      next := s.next + 1
      tasks := Function.update s.tasks s.next
        ((call.specs[s.next]?).map fun spec => { s := spec, idx := s.next }) }
  | .get =>
    match s.stage s.got with
    | some (.ready (.ok _)) => { s with got := s.got + 1 }
    | some (.ready (.error e)) => { s with phase := .unwinding e }
    | _ => s
  | .join => { s with start := s.next }
  | .unwind =>
    match s.phase with
    | .unwinding e => { s with phase := .threw e }
    | _ => s
  | .turn k turn =>
    match s.tasks k with
    | none => s
    | some task =>
      match task.stage.advance turn with
      | none => s
      | some stage =>
        { s with
          tasks := Function.update s.tasks k (some { task with stage })
          results := task.store s.results }

/-- A call of `downloadPackages`, whatever the calls of `downloadPackage` do. -/
def machine : Machine BatchState BatchAction where
  initial := { results := List.replicate call.specs.length false }
  Enabled := call.Enabled
  next := call.next

/-- The last batch has been joined. -/
def Returned (s : BatchState) : Prop := s.phase = .running ∧ s.start = call.specs.length

def Ended (s : BatchState) : Prop := call.Returned s ∨ ∃ e, s.phase = .threw e

end DownloadCall

/-- What stands in the slot of a task. -/
def Stage.slot : Stage → Bool
  | .ready (.ok ok) => ok
  | _ => false

/-- What the call of a task has ended with. -/
def Stage.outcome : Stage → Option (Except Failure Bool)
  | .writing ok => some (.ok ok)
  | .ready outcome => some outcome
  | _ => none

/-- The call has begun. -/
def Stage.called : Stage → Bool
  | .launched => false
  | _ => true

/-- The turns a task has before it. -/
def Stage.steps : Stage → ℕ
  | .launched => 3
  | .calling => 2
  | .writing _ => 1
  | .ready _ => 0

def Phase.steps : Phase → ℕ
  | .running => 2
  | .unwinding _ => 1
  | .threw _ => 0

section Task

variable {task : Task} {stage : Stage} {turn : Turn} {results : List Bool} {other : ℕ}

theorem length_store (task : Task) (results : List Bool) :
    (task.store results).length = results.length := by
  rw [Task.store]
  split
  · exact List.length_set
  · rfl

theorem getElem?_store_ne (differ : other ≠ task.idx) :
    (task.store results)[other]? = results[other]? := by
  rw [Task.store]
  split
  · exact List.getElem?_set_ne differ.symm
  · rfl

/-- The four turns of a task. -/
theorem Stage.advance_cases {before after : Stage} (advance : before.advance turn = some after) :
    (before = .launched ∧ turn = .call ∧ after = .calling) ∨
    (∃ ok, before = .calling ∧ turn = .finish (.ok ok) ∧ after = .writing ok) ∨
    (∃ e, before = .calling ∧ turn = .finish (.error e) ∧ after = .ready (.error e)) ∨
    ∃ ok, before = .writing ok ∧ turn = .write ∧ after = .ready (.ok ok) := by
  cases before with
  | launched =>
    cases turn with
    | call =>
      cases advance
      exact .inl ⟨rfl, rfl, rfl⟩
    | finish _ | write => cases advance
  | calling =>
    cases turn with
    | finish outcome =>
      cases outcome with
      | ok ok =>
        cases advance
        exact .inr (.inl ⟨ok, rfl, rfl, rfl⟩)
      | error e =>
        cases advance
        exact .inr (.inr (.inl ⟨e, rfl, rfl, rfl⟩))
    | call | write => cases advance
  | writing ok =>
    cases turn with
    | write =>
      cases advance
      exact .inr (.inr (.inr ⟨ok, rfl, rfl, rfl⟩))
    | call | finish _ => cases advance
  | ready outcome => cases advance

/-- The slot changes with the stage. -/
theorem getElem?_store_self (advance : task.stage.advance turn = some stage)
    (slot : results[task.idx]? = some task.stage.slot) :
    (task.store results)[task.idx]? = some stage.slot := by
  have inside : task.idx < results.length := (List.getElem?_eq_some_iff.1 slot).1
  rw [Task.store]
  rcases Stage.advance_cases advance with ⟨before, -, rfl⟩ | ⟨ok, before, -, rfl⟩ |
    ⟨e, before, -, rfl⟩ | ⟨ok, before, -, rfl⟩
  · rwa [before] at slot ⊢
  · rwa [before] at slot ⊢
  · rwa [before] at slot ⊢
  · rw [before]
    exact List.getElem?_set_self inside

theorem Stage.steps_advance {before after : Stage} (advance : before.advance turn = some after) :
    after.steps < before.steps := by
  rcases Stage.advance_cases advance with ⟨rfl, -, rfl⟩ | ⟨ok, rfl, -, rfl⟩ | ⟨e, rfl, -, rfl⟩ |
    ⟨ok, rfl, -, rfl⟩
  · exact Nat.lt_succ_self 2
  · exact Nat.lt_succ_self 1
  · exact Nat.zero_lt_two
  · exact Nat.zero_lt_one

/-- A task that is not ready has a turn. -/
theorem Stage.exists_advance (unready : ∀ outcome, stage ≠ .ready outcome) :
    ∃ turn, (stage.advance turn).isSome := by
  cases stage with
  | launched => exact ⟨.call, rfl⟩
  | calling => exact ⟨.finish (.ok true), rfl⟩
  | writing ok => exact ⟨.write, rfl⟩
  | ready outcome => exact absurd rfl (unready outcome)

end Task

/-- The calls of `downloadPackage` in progress. -/
def BatchState.inProgress (s : BatchState) : Finset ℕ :=
  (Finset.range s.next).filter fun k => s.stage k = some .calling

namespace DownloadCall

variable (call : DownloadCall)

/-- A task has captured the spec of its index, and no other task writes its slot. -/
def Sound (s : BatchState) (k : ℕ) : Option Task → Prop
  | none => s.next ≤ k ∧ (k < call.specs.length → s.results[k]? = some false)
  | some task => k < s.next ∧ call.specs[k]? = some task.s ∧ task.idx = k ∧
      s.results[k]? = some task.stage.slot

/-- The first call of the batch that has thrown is the one for which `get` throws. -/
def Failed (s : BatchState) (e : Failure) : Prop :=
  call.Full s ∧ s.got < s.next ∧ s.stage s.got = some (.ready (.error e))

def SoundPhase (s : BatchState) : Phase → Prop
  | .running => True
  | .unwinding e => call.Failed s e
  | .threw e => call.Failed s e ∧ ∀ k < s.next, s.Ready k

structure Inv (s : BatchState) : Prop where
  length : s.results.length = call.specs.length
  start_le : s.start ≤ s.got
  got_le : s.got ≤ s.next
  next_le : s.next ≤ call.specs.length
  batch_le : s.next ≤ s.start + call.batchSize
  task : ∀ k, call.Sound s k (s.tasks k)
  got : ∀ k < s.got, ∃ ok, s.stage k = some (.ready (.ok ok))
  phase : call.SoundPhase s s.phase

variable {call : DownloadCall} {s s' t : BatchState} {as : List BatchAction} {a : BatchAction}
  {k : ℕ} {turn : Turn}

/-! ### What a step can do -/

theorem get_cases (enabled : call.Enabled s .get) :
    (∃ ok, s.stage s.got = some (.ready (.ok ok)) ∧
        call.next s .get = { s with got := s.got + 1 }) ∨
      ∃ e, s.stage s.got = some (.ready (.error e)) ∧
        call.next s .get = { s with phase := .unwinding e } := by
  obtain ⟨_, _, _, outcome, ready⟩ := enabled
  cases outcome with
  | ok ok => exact .inl ⟨ok, ready, by simp only [DownloadCall.next, ready]⟩
  | error e => exact .inr ⟨e, ready, by simp only [DownloadCall.next, ready]⟩

theorem unwind_cases (enabled : call.Enabled s .unwind) :
    ∃ e, s.phase = .unwinding e ∧ call.next s .unwind = { s with phase := .threw e } := by
  obtain ⟨⟨e, phase⟩, _⟩ := enabled
  exact ⟨e, phase, by simp only [DownloadCall.next, phase]⟩

theorem turn_cases (enabled : call.Enabled s (.turn k turn)) :
    ∃ task stage, s.tasks k = some task ∧ task.stage.advance turn = some stage ∧
      call.next s (.turn k turn) = { s with
        tasks := Function.update s.tasks k (some { task with stage })
        results := task.store s.results } := by
  obtain ⟨task, here, advances⟩ := enabled
  obtain ⟨stage, advance⟩ := Option.isSome_iff_exists.1 advances
  exact ⟨task, stage, here, advance, by simp only [DownloadCall.next, here, advance]⟩

/-! ### What a step keeps -/

/-- Where no task has been touched, what its slot holds is still sound. -/
theorem Sound.congr {task : Option Task} (sound : call.Sound s k task) (next : s'.next = s.next)
    (slot : s'.results[k]? = s.results[k]?) : call.Sound s' k task := by
  cases task with
  | none => simpa only [Sound, next, slot] using sound
  | some task => simpa only [Sound, next, slot] using sound

theorem Inv.tasks_next (inv : call.Inv s) : s.tasks s.next = none := by
  have sound := inv.task s.next
  cases here : s.tasks s.next with
  | none => rfl
  | some task =>
    rw [here] at sound
    exact absurd sound.1 (Nat.lt_irrefl _)

theorem stage_launch (enabled : call.Enabled s .launch) :
    (call.next s .launch).stage s.next = some .launched := by
  simp only [BatchState.stage, DownloadCall.next]
  rw [Function.update_self, List.getElem?_eq_getElem enabled.2.1]
  rfl

theorem stage_launch_ne {j : ℕ} (other : j ≠ s.next) :
    (call.next s .launch).stage j = s.stage j := by
  simp only [BatchState.stage, DownloadCall.next]
  rw [Function.update_of_ne other]

theorem stage_turn_ne {j : ℕ} (enabled : call.Enabled s (.turn k turn)) (other : j ≠ k) :
    (call.next s (.turn k turn)).stage j = s.stage j := by
  obtain ⟨task, stage, -, -, next⟩ := turn_cases enabled
  rw [next]
  simp only [BatchState.stage]
  rw [Function.update_of_ne other]

theorem inv_launch (enabled : call.Enabled s .launch) (inv : call.Inv s) :
    call.Inv (call.next s .launch) := by
  obtain ⟨phase, more, room⟩ := enabled
  refine ⟨inv.length, inv.start_le, Nat.le_succ_of_le inv.got_le, more, room, ?_, ?_, ?_⟩
  · intro j
    have sound := inv.task j
    simp only [DownloadCall.next]
    rcases eq_or_ne j s.next with rfl | other
    · rw [inv.tasks_next] at sound
      rw [Function.update_self, List.getElem?_eq_getElem more]
      exact ⟨Nat.lt_succ_self _, List.getElem?_eq_getElem more, rfl, sound.2 more⟩
    · rw [Function.update_of_ne other]
      cases here : s.tasks j with
      | none =>
        rw [here] at sound
        exact ⟨Nat.lt_of_le_of_ne sound.1 other.symm, sound.2⟩
      | some task =>
        rw [here] at sound
        exact ⟨Nat.lt_succ_of_lt sound.1, sound.2⟩
  · intro j before
    rw [stage_launch_ne (lt_of_lt_of_le before inv.got_le).ne]
    exact inv.got j before
  · have running : (call.next s .launch).phase = .running := phase
    rw [running]
    trivial

theorem inv_get (enabled : call.Enabled s .get) (inv : call.Inv s) :
    call.Inv (call.next s .get) := by
  obtain ⟨phase, full, waiting, _⟩ := id enabled
  rcases get_cases enabled with ⟨ok, ready, next⟩ | ⟨e, ready, next⟩
  · rw [next]
    refine ⟨inv.length, Nat.le_succ_of_le inv.start_le, waiting, inv.next_le, inv.batch_le,
      fun j => (inv.task j).congr rfl rfl, ?_, ?_⟩
    · intro j before
      rcases Nat.lt_succ_iff_lt_or_eq.1 before with earlier | rfl
      · exact inv.got j earlier
      · exact ⟨ok, ready⟩
    · simp only [phase]
      trivial
  · rw [next]
    exact ⟨inv.length, inv.start_le, inv.got_le, inv.next_le, inv.batch_le,
      fun j => (inv.task j).congr rfl rfl, inv.got, full, waiting, ready⟩

theorem inv_join (enabled : call.Enabled s .join) (inv : call.Inv s) :
    call.Inv (call.next s .join) := by
  obtain ⟨phase, _, _, all⟩ := enabled
  have running : (call.next s .join).phase = .running := phase
  refine ⟨inv.length, all.ge, inv.got_le, inv.next_le, Nat.le_add_right _ _,
    fun j => (inv.task j).congr rfl rfl, inv.got, ?_⟩
  rw [running]
  trivial

theorem inv_unwind (enabled : call.Enabled s .unwind) (inv : call.Inv s) :
    call.Inv (call.next s .unwind) := by
  obtain ⟨e, phase, next⟩ := unwind_cases enabled
  have failed := inv.phase
  rw [phase] at failed
  rw [next]
  refine ⟨inv.length, inv.start_le, inv.got_le, inv.next_le, inv.batch_le,
    fun j => (inv.task j).congr rfl rfl, inv.got, failed, ?_⟩
  intro j before
  rcases lt_or_ge j s.start with earlier | batch
  · obtain ⟨ok, ready⟩ := inv.got j (lt_of_lt_of_le earlier inv.start_le)
    exact ⟨.ok ok, ready⟩
  · exact enabled.2 j batch before

/-- A task whose future is ready does nothing more. -/
theorem stage_turn_of_ready {j : ℕ} {outcome : Except Failure Bool}
    (enabled : call.Enabled s (.turn k turn)) (ready : s.stage j = some (.ready outcome)) :
    (call.next s (.turn k turn)).stage j = some (.ready outcome) := by
  obtain ⟨task, stage, here, advance, next⟩ := turn_cases enabled
  rw [next, ← ready]
  simp only [BatchState.stage]
  rcases eq_or_ne j k with rfl | other
  · -- The stage of a ready task has no turn.
    simp only [BatchState.stage, here, Option.map_some, Option.some.injEq] at ready
    rw [ready] at advance
    cases advance
  · rw [Function.update_of_ne other]

theorem inv_turn (enabled : call.Enabled s (.turn k turn)) (inv : call.Inv s) :
    call.Inv (call.next s (.turn k turn)) := by
  have stays {j : ℕ} {outcome : Except Failure Bool}
      (ready : s.stage j = some (.ready outcome)) :
      (call.next s (.turn k turn)).stage j = some (.ready outcome) :=
    stage_turn_of_ready enabled ready
  obtain ⟨task, stage, here, advance, next⟩ := turn_cases enabled
  rw [next] at stays ⊢
  have own := inv.task k
  rw [here] at own
  obtain ⟨launched, spec, rfl, slot⟩ := own
  refine ⟨(length_store ..).trans inv.length, inv.start_le, inv.got_le, inv.next_le, inv.batch_le,
    ?_, ?_, ?_⟩
  · intro j
    dsimp only
    rcases eq_or_ne j task.idx with rfl | other
    · rw [Function.update_self]
      exact ⟨launched, spec, rfl, getElem?_store_self advance slot⟩
    · rw [Function.update_of_ne other]
      exact (inv.task j).congr rfl (getElem?_store_ne other)
  · intro j before
    obtain ⟨ok, ready⟩ := inv.got j before
    exact ⟨ok, stays ready⟩
  · have sound := inv.phase
    simp only
    cases phase : s.phase with
    | running => trivial
    | unwinding e =>
      rw [phase] at sound
      exact ⟨sound.1, sound.2.1, stays sound.2.2⟩
    | threw e =>
      rw [phase] at sound
      obtain ⟨⟨full, waiting, thrown⟩, ready⟩ := sound
      refine ⟨⟨full, waiting, stays thrown⟩, fun j before => ?_⟩
      obtain ⟨outcome, done⟩ := ready j before
      exact ⟨outcome, stays done⟩

theorem inv (reachable : call.machine.Reachable s) : call.Inv s := by
  apply reachable.invariant
  · refine ⟨List.length_replicate, le_rfl, le_rfl, Nat.zero_le _, Nat.zero_le _, ?_, ?_, trivial⟩
    · intro k
      exact ⟨Nat.zero_le _, fun inside => List.getElem?_replicate_of_lt inside⟩
    · exact fun k before => absurd before (Nat.not_lt_zero k)
  · intro s a _ enabled holds
    cases a with
    | launch => exact inv_launch enabled holds
    | get => exact inv_get enabled holds
    | join => exact inv_join enabled holds
    | unwind => exact inv_unwind enabled holds
    | turn k turn => exact inv_turn enabled holds

/-- Only the tasks of the batch are in progress. -/
theorem card_inProgress_le (inv : call.Inv s) : s.inProgress.card ≤ call.batchSize := by
  have batch : s.inProgress ⊆ Finset.Ico s.start s.next := by
    intro k member
    obtain ⟨before, calling⟩ := Finset.mem_filter.1 member
    refine Finset.mem_Ico.2 ⟨?_, Finset.mem_range.1 before⟩
    by_contra earlier
    have joined : k < s.got := lt_of_lt_of_le (Nat.lt_of_not_le earlier) inv.start_le
    obtain ⟨ok, ready⟩ := inv.got k joined
    rw [ready] at calling
    cases calling
  have bound := inv.batch_le
  calc s.inProgress.card ≤ (Finset.Ico s.start s.next).card := Finset.card_le_card batch
    _ = s.next - s.start := Nat.card_Ico ..
    _ ≤ call.batchSize := by omega

/-! ### What has happened -/

/-- How often the call of a task has begun, and with what it has ended. -/
structure Told (as : List BatchAction) (s : BatchState) (k : ℕ) : Prop where
  call : as.count (.turn k .call) = if (s.stage k).any Stage.called then 1 else 0
  finish : ∀ outcome, .turn k (.finish outcome) ∈ as ↔
    (s.stage k).bind Stage.outcome = some outcome

/-- A step that is not a turn of the task, and leaves what is known of its stage. -/
theorem Told.other (told : Told as s k) (differ : ∀ turn, a ≠ .turn k turn)
    (called : (s'.stage k).any Stage.called = (s.stage k).any Stage.called)
    (outcome : (s'.stage k).bind Stage.outcome = (s.stage k).bind Stage.outcome) :
    Told (as ++ [a]) s' k := by
  refine ⟨?_, fun o => ?_⟩
  · rw [called, ← told.call, List.count_append, List.count_singleton]
    simp [differ .call]
  · rw [outcome, ← told.finish, List.mem_append, List.mem_singleton]
    exact or_iff_left (differ _).symm

theorem Told.launched (told : Told as s k) (enabled : call.Enabled s .launch) (inv : call.Inv s) :
    Told (as ++ [.launch]) (call.next s .launch) k := by
  rcases eq_or_ne k s.next with rfl | other
  · have fresh : s.stage s.next = none := by rw [BatchState.stage, inv.tasks_next, Option.map_none]
    apply told.other (fun _ => by simp)
    · rw [fresh, stage_launch enabled]
      rfl
    · rw [fresh, stage_launch enabled]
      rfl
  · have same : (call.next s .launch).stage k = s.stage k := stage_launch_ne other
    exact told.other (fun _ => by simp) (by rw [same]) (by rw [same])

theorem Told.turned {j : ℕ} (told : Told as s k) (enabled : call.Enabled s (.turn j turn)) :
    Told (as ++ [.turn j turn]) (call.next s (.turn j turn)) k := by
  obtain ⟨task, stage, here, advance, next⟩ := turn_cases enabled
  rw [next]
  rcases eq_or_ne k j with rfl | other
  · have before : s.stage k = some task.stage := by rw [BatchState.stage, here, Option.map_some]
    obtain ⟨called, finish⟩ := told
    rw [before] at called finish
    refine ⟨?_, fun outcome => ?_⟩
    · rw [List.count_append, called]
      simp only [BatchState.stage, Function.update_self]
      rcases Stage.advance_cases advance with ⟨stage, rfl, rfl⟩ | ⟨ok, stage, rfl, rfl⟩ |
        ⟨e, stage, rfl, rfl⟩ | ⟨ok, stage, rfl, rfl⟩
      all_goals
        rw [stage]
        simp [Stage.called]
    · rw [List.mem_append, finish]
      simp only [BatchState.stage, Function.update_self]
      rcases Stage.advance_cases advance with ⟨stage, rfl, rfl⟩ | ⟨ok, stage, rfl, rfl⟩ |
        ⟨e, stage, rfl, rfl⟩ | ⟨ok, stage, rfl, rfl⟩
      all_goals
        rw [stage]
        simp [Stage.outcome, eq_comm]
  · have same : (call.next s (.turn j turn)).stage k = s.stage k := stage_turn_ne enabled other
    rw [← next]
    exact told.other (fun _ => by simp [other.symm]) (by rw [same]) (by rw [same])

theorem told (run : call.machine.Run call.machine.initial as s) (k : ℕ) : Told as s k := by
  apply run.history (P := fun as s => Told as s k)
  · exact ⟨rfl, fun outcome => by simp [machine, BatchState.stage]⟩
  intro as s a before (enabled : call.Enabled s a) told
  cases a with
  | launch => exact told.launched enabled (inv ⟨as, before⟩)
  | get =>
    change Told _ (call.next s .get) k
    rcases get_cases enabled with ⟨ok, -, next⟩ | ⟨e, -, next⟩
    · rw [next]
      exact told.other (fun _ => by simp) rfl rfl
    · rw [next]
      exact told.other (fun _ => by simp) rfl rfl
  | join => exact told.other (fun _ => by simp) rfl rfl
  | unwind =>
    change Told _ (call.next s .unwind) k
    obtain ⟨e, -, next⟩ := unwind_cases enabled
    rw [next]
    exact told.other (fun _ => by simp) rfl rfl
  | turn j turn => exact told.turned enabled

theorem Inv.stage_of_lt (inv : call.Inv s) {k : ℕ} (before : k < s.next) :
    ∃ task, s.tasks k = some task ∧ call.specs[k]? = some task.s ∧ task.idx = k ∧
      s.results[k]? = some task.stage.slot := by
  have sound := inv.task k
  cases here : s.tasks k with
  | none =>
    rw [here] at sound
    exact absurd before (Nat.not_lt.2 sound.1)
  | some task =>
    rw [here] at sound
    exact ⟨task, rfl, sound.2⟩

theorem Inv.stage_of_le (inv : call.Inv s) {k : ℕ} (after : s.next ≤ k) : s.stage k = none := by
  have sound := inv.task k
  cases here : s.tasks k with
  | none => rw [BatchState.stage, here, Option.map_none]
  | some task =>
    rw [here] at sound
    exact absurd sound.1 (Nat.not_lt.2 after)

variable (call) in
/-- Each spec has been downloaded by one call, and its slot holds what that has returned. -/
structure Exact (as : List BatchAction) (s : BatchState) : Prop where
  length : s.results.length = call.specs.length
  called : ∀ k, as.count (.turn k .call) = if k < call.specs.length then 1 else 0
  outcome : ∀ k spec, call.specs[k]? = some spec → ∃ ok, s.results[k]? = some ok ∧
    s.tasks k = some ⟨spec, k, .ready (.ok ok)⟩ ∧
    ∀ outcome, .turn k (.finish outcome) ∈ as ↔ outcome = .ok ok

variable (call) in
/-- The first call of the last batch that has thrown is rethrown once all calls of the batch have
ended; the specs behind the batch have not been downloaded. -/
structure Rethrown (as : List BatchAction) (s : BatchState) (e : Failure) : Prop where
  full : call.Full s
  called : ∀ k, as.count (.turn k .call) = if k < s.next then 1 else 0
  ended : ∀ k < s.next, ∃ outcome, .turn k (.finish outcome) ∈ as
  first : ∃ k < s.next, s.start ≤ k ∧ .turn k (.finish (.error e)) ∈ as ∧
    ∀ j < k, ∃ ok, .turn j (.finish (.ok ok)) ∈ as

/-- Where all futures are ready, each task has called once. -/
theorem count_of_ready (run : call.machine.Run call.machine.initial as s)
    (ready : ∀ k < s.next, s.Ready k) (k : ℕ) :
    as.count (.turn k .call) = if k < s.next then 1 else 0 := by
  rw [(told run k).call]
  rcases lt_or_ge k s.next with before | after
  · obtain ⟨outcome, stage⟩ := ready k before
    rw [stage, if_pos before]
    rfl
  · rw [(inv ⟨as, run⟩).stage_of_le after, if_neg (Nat.not_lt.2 after)]
    rfl

theorem exact_of_returned (run : call.machine.Run call.machine.initial as s)
    (returned : call.Returned s) : call.Exact as s := by
  have holds := inv ⟨as, run⟩
  obtain ⟨-, joined⟩ := returned
  have order := And.intro holds.start_le holds.got_le
  have all : s.next = call.specs.length := by
    have bound := holds.next_le
    omega
  have gotten (k : ℕ) (inside : k < call.specs.length) :
      ∃ ok, s.stage k = some (.ready (.ok ok)) := holds.got k (by omega)
  refine ⟨holds.length, ?_, ?_⟩
  · rw [← all]
    refine count_of_ready run fun k before => ?_
    obtain ⟨ok, ready⟩ := gotten k (all ▸ before)
    exact ⟨.ok ok, ready⟩
  · intro k spec there
    have inside : k < call.specs.length := (List.getElem?_eq_some_iff.1 there).1
    obtain ⟨ok, ready⟩ := gotten k inside
    obtain ⟨⟨s', idx, stage⟩, here, captured, rfl, slot⟩ := holds.stage_of_lt (all ▸ inside)
    rw [there] at captured
    cases captured
    have stageReady : stage = .ready (.ok ok) := by
      simpa only [BatchState.stage, here, Option.map_some, Option.some.injEq] using ready
    subst stageReady
    refine ⟨ok, slot, here, fun outcome => ?_⟩
    rw [(told run _).finish, ready]
    simp [Stage.outcome, eq_comm]

theorem rethrown_of_threw {e : Failure} (run : call.machine.Run call.machine.initial as s)
    (threw : s.phase = .threw e) : call.Rethrown as s e := by
  have holds := inv ⟨as, run⟩
  have sound := holds.phase
  rw [threw] at sound
  obtain ⟨⟨full, waiting, failed⟩, ready⟩ := sound
  refine ⟨full, count_of_ready run ready, ?_, s.got, waiting, holds.start_le, ?_, ?_⟩
  · intro k before
    obtain ⟨outcome, stage⟩ := ready k before
    exact ⟨outcome, ((told run k).finish outcome).2 (by rw [stage]; rfl)⟩
  · exact ((told run s.got).finish _).2 (by rw [failed]; rfl)
  · intro j before
    obtain ⟨ok, stage⟩ := holds.got j before
    exact ⟨ok, ((told run j).finish _).2 (by rw [stage]; rfl)⟩

/-- Without a call that throws, nothing is thrown. -/
theorem running_of_returns (run : call.machine.Run call.machine.initial as s)
    (returns : ∀ k e, .turn k (.finish (.error e)) ∉ as) : s.phase = .running := by
  have sound := (inv ⟨as, run⟩).phase
  have impossible {e : Failure} (failed : call.Failed s e) : False :=
    returns s.got e (((told run s.got).finish _).2 (by rw [failed.2.2]; rfl))
  cases phase : s.phase with
  | running => rfl
  | unwinding e =>
    rw [phase] at sound
    exact (impossible sound).elim
  | threw e =>
    rw [phase] at sound
    exact (impossible sound.1).elim

/-! ### Every run ends -/

variable (call) in
/-- What is left of the tasks; one that is not launched has four steps before it. -/
def tasksLeft (s : BatchState) : ℕ :=
  ∑ k ∈ Finset.range call.specs.length, (s.stage k).elim 4 Stage.steps

variable (call) in
/-- What is left of the tasks, the futures and the batches. -/
def work (s : BatchState) : ℕ :=
  call.tasksLeft s + (call.specs.length - s.got) + (call.specs.length - s.start) + s.phase.steps

theorem tasksLeft_lt (inside : k < call.specs.length)
    (others : ∀ j, j ≠ k → s'.stage j = s.stage j)
    (fewer : (s'.stage k).elim 4 Stage.steps < (s.stage k).elim 4 Stage.steps) :
    call.tasksLeft s' < call.tasksLeft s := by
  apply Machine.sum_range_lt inside _ fewer
  exact fun j other => by rw [others j other]

theorem work_next_lt (reachable : call.machine.Reachable s) (enabled : call.Enabled s a) :
    call.work (call.next s a) < call.work s := by
  have holds := inv reachable
  have order := And.intro holds.start_le (And.intro holds.got_le holds.next_le)
  cases a with
  | launch =>
    have less : call.tasksLeft (call.next s .launch) < call.tasksLeft s := by
      apply tasksLeft_lt enabled.2.1 fun j other => stage_launch_ne other
      rw [stage_launch enabled, holds.stage_of_le le_rfl]
      exact Nat.lt_succ_self 3
    exact Nat.add_lt_add_right (Nat.add_lt_add_right (Nat.add_lt_add_right less _) _) _
  | get =>
    obtain ⟨phase, _, waiting, _⟩ := id enabled
    rcases get_cases enabled with ⟨ok, -, next⟩ | ⟨e, -, next⟩
    · rw [next]
      simp only [work, tasksLeft, BatchState.stage]
      omega
    · rw [next]
      simp only [work, tasksLeft, BatchState.stage, phase, Phase.steps]
      omega
  | join =>
    obtain ⟨_, _, more, _⟩ := enabled
    simp only [work, tasksLeft, DownloadCall.next, BatchState.stage]
    omega
  | unwind =>
    obtain ⟨e, phase, next⟩ := unwind_cases enabled
    rw [next]
    simp only [work, tasksLeft, BatchState.stage, phase, Phase.steps]
    omega
  | turn k turn =>
    obtain ⟨task, stage, here, advance, next⟩ := turn_cases enabled
    have sound := holds.task k
    rw [here] at sound
    have less : call.tasksLeft (call.next s (.turn k turn)) < call.tasksLeft s := by
      apply tasksLeft_lt (lt_of_lt_of_le sound.1 holds.next_le)
        fun j other => stage_turn_ne enabled other
      rw [next]
      simp only [BatchState.stage, here, Function.update_self, Option.map_some, Option.elim_some]
      exact Stage.steps_advance advance
    rw [next] at less ⊢
    exact Nat.add_lt_add_right (Nat.add_lt_add_right (Nat.add_lt_add_right less _) _) _

theorem exists_turn (inv : call.Inv s) (before : k < s.next) (unready : ¬s.Ready k) :
    ∃ turn, call.Enabled s (.turn k turn) := by
  obtain ⟨task, here, -⟩ := inv.stage_of_lt before
  have busy : ∀ outcome, task.stage ≠ .ready outcome := by
    intro outcome ready
    exact unready ⟨outcome, by rw [BatchState.stage, here, Option.map_some, ready]⟩
  obtain ⟨turn, advances⟩ := Stage.exists_advance busy
  exact ⟨turn, task, here, advances⟩

/-- Until the end, someone can take a step: a call that is in progress can end. -/
theorem exists_enabled (reachable : call.machine.Reachable s) (unended : ¬call.Ended s) :
    ∃ a, call.Enabled s a := by
  have holds := inv reachable
  have order := And.intro holds.start_le (And.intro holds.got_le holds.next_le)
  have positive : 0 < call.batchSize := by
    rw [batchSize]
    split <;> omega
  rw [Ended, not_or, not_exists] at unended
  cases phase : s.phase with
  | running =>
    have more : s.start ≠ call.specs.length := fun all => unended.1 ⟨phase, all⟩
    rcases Decidable.em (s.next < call.specs.length ∧ s.next < s.start + call.batchSize) with
      room | closed
    · exact ⟨.launch, phase, room⟩
    · have batch := holds.batch_le
      have full : call.Full s := by
        rw [Full]
        omega
      rcases holds.got_le.lt_or_eq with waiting | all
      · rcases Classical.em (s.Ready s.got) with ready | unready
        · exact ⟨.get, phase, full, waiting, ready⟩
        · obtain ⟨turn, enabled⟩ := exists_turn holds waiting unready
          exact ⟨_, enabled⟩
      · refine ⟨.join, phase, full, ?_, all⟩
        rcases full with last | last
        · omega
        · omega
  | unwinding e =>
    rcases Classical.em (∀ k, s.start ≤ k → k < s.next → s.Ready k) with ready | unready
    · exact ⟨.unwind, ⟨e, phase⟩, ready⟩
    · simp only [not_forall] at unready
      obtain ⟨k, _, before, unready⟩ := unready
      obtain ⟨turn, enabled⟩ := exists_turn holds before unready
      exact ⟨_, enabled⟩
  | threw e => exact absurd phase (unended.2 e)

/-- In whatever order the tasks take their turns and with whatever the calls end, no more calls
than allowed are in progress and none is made twice; every run is bounded and can go on until it
ends. If it returns, and it does unless a call throws, each spec has been downloaded by one call
and its slot holds the outcome. If a call throws, the batch is finished and no other is started. -/
theorem downloadPackages_exact (call : DownloadCall) {as : List BatchAction} {s : BatchState}
    (run : call.machine.Run call.machine.initial as s) :
    s.inProgress.card ≤ max 1 call.maxConcurrency ∧
    (∀ k, as.count (.turn k .call) ≤ 1) ∧
    as.length ≤ 6 * call.specs.length + 2 ∧
    (¬call.Ended s → ∃ a, call.machine.Enabled s a) ∧
    (call.Returned s → call.Exact as s) ∧
    ((∀ k e, .turn k (.finish (.error e)) ∉ as) → s.phase = .running) ∧
    ∀ e, s.phase = .threw e → call.Rethrown as s e := by
  have holds := inv ⟨as, run⟩
  refine ⟨?_, fun k => ?_, ?_, exists_enabled ⟨as, run⟩, exact_of_returned run,
    running_of_returns run, fun e => rethrown_of_threw run⟩
  · have bound := card_inProgress_le holds
    rw [batchSize] at bound
    split at bound
    · omega
    · omega
  · rw [(told run k).call]
    split
    · exact le_rfl
    · exact Nat.zero_le 1
  · have shrinks : ∀ s a, call.machine.Reachable s → call.machine.Enabled s a →
        call.work (call.machine.next s a) < call.work s :=
      fun _ _ reachable enabled => work_next_lt reachable enabled
    have bound := run.length_le .initial shrinks
    have start : call.work call.machine.initial = 6 * call.specs.length + 2 := by
      simp only [work, tasksLeft, machine, BatchState.stage, Option.map_none, Option.elim_none,
        Finset.sum_const, Finset.card_range, smul_eq_mul, Phase.steps]
      omega
    omega

def specA : DownloadSpec := ⟨['a'], "1.0.0".toList, "f/.tmp".toList⟩

def specB : DownloadSpec := ⟨['b'], "1.0.0".toList, "./.tmp".toList⟩

/-- Zero is one at a time. -/
def one : DownloadCall := ⟨[specA], 0⟩

def oneSchedule : List BatchAction :=
  [.launch, .turn 0 .call, .turn 0 (.finish (.ok true)), .turn 0 .write, .get, .join]

theorem downloadPackages_exact_one :
    one.Exact oneSchedule (oneSchedule.foldl one.next one.machine.initial) := by
  have run : one.machine.Run one.machine.initial oneSchedule
      (oneSchedule.foldl one.next one.machine.initial) :=
    .cons ⟨rfl, by decide, by decide⟩ <| .cons ⟨_, rfl, rfl⟩ <| .cons ⟨_, rfl, rfl⟩ <|
      .cons ⟨_, rfl, rfl⟩ <| .cons ⟨rfl, .inl rfl, by decide, _, rfl⟩ <|
      .cons ⟨rfl, .inl rfl, by decide, rfl⟩ <| .nil _
  exact (downloadPackages_exact one run).2.2.2.2.1 ⟨rfl, rfl⟩

/-- One after the other. -/
def two : DownloadCall := ⟨[specA, specB], 1⟩

def throwingSchedule : List BatchAction :=
  [.launch, .turn 0 .call, .turn 0 (.finish (.error .filesystem)), .get, .unwind]

/-- There is a file where the first spec wants a directory. -/
def fileTree : FileTree.Tree := fun location =>
  if location = [['f']] then some (.file []) else PackageInstaller.onlyRoot location

theorem run_throwing : two.machine.Run two.machine.initial throwingSchedule
    (throwingSchedule.foldl two.next two.machine.initial) := by
  have thrown (k : ℕ) (_ : 0 ≤ k) (before : k < 1) :
      (throwingSchedule.dropLast.foldl two.next two.machine.initial).Ready k := by
    obtain rfl : k = 0 := by omega
    exact ⟨_, rfl⟩
  exact .cons ⟨rfl, by decide, by decide⟩ <| .cons ⟨_, rfl, rfl⟩ <| .cons ⟨_, rfl, rfl⟩ <|
    .cons ⟨rfl, .inr rfl, by decide, _, rfl⟩ <| .cons ⟨⟨_, rfl⟩, thrown⟩ <| .nil _

/-- The first call throws, and there the run ends: the second spec is never downloaded. -/
theorem not_exact_throwing :
    (∃ after, downloadPackage connected.world specA.packageName specA.version specA.targetDir []
      fileTree = .error .filesystem after) ∧
    ∃ s, two.machine.Run two.machine.initial throwingSchedule s ∧ s.phase = .threw .filesystem ∧
      (∀ a, ¬two.machine.Enabled s a) ∧ throwingSchedule.count (.turn 1 .call) = 0 := by
  constructor
  · have tarball : tarballOf (connected.fetchPackage specA.packageName []) specA.version =
        some tarballUrl := by decide
    apply downloadPackage_of_not_clear tarball
    intro clear
    have blocked := clear [['f']] (by decide)
    exact absurd blocked (by decide)
  · refine ⟨_, run_throwing, rfl, ?_, by decide⟩
    intro a enabled
    cases a with
    | launch | get | join => exact absurd enabled.1 (by decide)
    | unwind =>
      obtain ⟨⟨e, unwinding⟩, _⟩ := enabled
      cases unwinding
    | turn k turn =>
      obtain ⟨task, here, advances⟩ := enabled
      rcases Nat.eq_zero_or_pos k with rfl | later
      · cases here
        cases advances
      · have unlaunched := (inv ⟨_, run_throwing⟩).stage_of_le later
        rw [BatchState.stage, here] at unlaunched
        cases unlaunched

end DownloadCall

end NPMRegistry

end ProtoJS.Npm
