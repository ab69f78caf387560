import ProtoJS.Machine.Run

/-! # The output of a child process

After the fork, `spawnProcess` starts a reader thread for each of the two output pipes and a
detached thread that waits for the child. A reader looks at `spawned` and `killed` before each
`read`; the waiter clears `spawned` when the child has exited, whatever the pipes still hold.
-/

namespace ProtoJS.ChildProcess

inductive Stream
  | stdout
  | stderr
deriving DecidableEq, Repr

/-- How the child has ended. -/
inductive Status
  | exited (code : ℤ)
  | signaled (number : ℤ)
deriving DecidableEq, Repr

/-- Where a reader thread stands in its loop. -/
inductive ReaderPc
  | checkSpawned
  | checkKilled
  | reading
  | enqueueing (chunk : List UInt8)
  | done
deriving DecidableEq, Repr

/-- Where the thread that waits for the child stands. -/
inductive WaiterPc
  | waiting
  | waited (status : Status)
  | cleared (status : Status)
  | recorded
  | ended
deriving DecidableEq, Repr

/-- What is enqueued on the event loop. -/
inductive Callback
  | data (stream : Stream) (chunk : List UInt8)
  | exit (code signal : ℤ)
  | other
deriving DecidableEq, Repr

/-- What a callback emits on a stream. -/
def Callback.emitted (stream : Stream) : Callback → List UInt8
  | .data source chunk => if source = stream then chunk else []
  | _ => []

/-- `ChildProcessData` once the child runs, with the child, its pipes and the threads; `written` is
all that the child has written. -/
structure State where
  spawned : Bool := true
  killed : Bool := false
  exitCode : ℤ := -1
  signal : ℤ := 0
  status : Option Status := none
  written : Stream → List UInt8 := fun _ => []
  pipe : Stream → List UInt8 := fun _ => []
  reader : Stream → ReaderPc := fun _ => .checkSpawned
  waiter : WaiterPc := .waiting
  enqueued : List Callback := []

namespace State

/-- The data enqueued for a stream, one chunk after the other. -/
def output (s : State) (stream : Stream) : List UInt8 :=
  s.enqueued.flatMap (Callback.emitted stream)

def setReader (s : State) (stream : Stream) (pc : ReaderPc) : State :=
  { s with reader := Function.update s.reader stream pc }

def enqueueCallback (s : State) (callback : Callback) : State :=
  { s with enqueued := s.enqueued ++ [callback] }

end State

inductive Action
  /-- The child writes to a stream. -/
  | write (stream : Stream) (bytes : List UInt8)
  | childExit (status : Status)
  /-- `childKill`. -/
  | kill
  /-- The steps of a reader: the two flags, `read` and `enqueueCallback`. -/
  | checkSpawned (stream : Stream)
  | checkKilled (stream : Stream)
  | read (stream : Stream) (n : ℕ)
  | enqueue (stream : Stream)
  /-- The steps of the waiter. -/
  | waitpid
  | clearSpawned
  | recordStatus
  | enqueueExit
  /-- Someone else enqueues a callback. -/
  | other
deriving DecidableEq, Repr

def Enabled (s : State) : Action → Prop
  | .write _ _ | .childExit _ => s.status = none
  | .kill | .other => True
  | .checkSpawned stream => s.reader stream = .checkSpawned
  | .checkKilled stream => s.reader stream = .checkKilled
  -- a read takes what there is, up to the buffer's size, and nothing once the writer has gone
  | .read stream n => s.reader stream = .reading ∧ n ≤ 4096 ∧ n ≤ (s.pipe stream).length ∧
      (n = 0 → s.pipe stream = [] ∧ s.status ≠ none)
  | .enqueue stream => ∃ chunk, s.reader stream = .enqueueing chunk
  | .waitpid => s.waiter = .waiting ∧ s.status ≠ none
  | .clearSpawned => ∃ status, s.waiter = .waited status
  | .recordStatus => ∃ status, s.waiter = .cleared status
  | .enqueueExit => s.waiter = .recorded

def next (s : State) : Action → State
  | .write stream bytes =>
    { s with
      written := Function.update s.written stream (s.written stream ++ bytes)
      pipe := Function.update s.pipe stream (s.pipe stream ++ bytes) }
  | .childExit status => { s with status := some status }
  | .kill => { s with killed := true }
  | .checkSpawned stream => s.setReader stream (if s.spawned then .checkKilled else .done)
  | .checkKilled stream => s.setReader stream (if s.killed then .done else .reading)
  | .read stream n =>
    if n = 0 then s.setReader stream .done
    else
      { s with pipe := Function.update s.pipe stream ((s.pipe stream).drop n) }.setReader stream
        (.enqueueing ((s.pipe stream).take n))
  | .enqueue stream =>
    match s.reader stream with
    | .enqueueing chunk =>
      (s.enqueueCallback (.data stream chunk)).setReader stream .checkSpawned
    | _ => s
  | .waitpid =>
    match s.status with
    | some status => { s with waiter := .waited status }
    | none => s
  | .clearSpawned =>
    match s.waiter with
    | .waited status => { s with waiter := .cleared status, spawned := false }
    | _ => s
  | .recordStatus =>
    match s.waiter with
    | .cleared (.exited code) => { s with waiter := .recorded, exitCode := code }
    | .cleared (.signaled number) => { s with waiter := .recorded, signal := number }
    | _ => s
  | .enqueueExit => { s.enqueueCallback (.exit s.exitCode s.signal) with waiter := .ended }
  | .other => s.enqueueCallback .other

/-- A child that has been forked, its readers and its waiter. -/
def child : Machine State Action where
  initial := {}
  Enabled := Enabled
  next := next

variable {s t : State} {a : Action} {as : List Action} {stream : Stream}

/-! ### Where the bytes are -/

/-- What a reader has read and not yet enqueued. -/
def ReaderPc.held : ReaderPc → List UInt8
  | .enqueueing chunk => chunk
  | _ => []

/-- The bytes written are enqueued, in a reader's hands or in the pipe, in this order. -/
def Conserved (s : State) : Prop :=
  ∀ stream, s.written stream = s.output stream ++ (s.reader stream).held ++ s.pipe stream

theorem conserved_next (enabled : Enabled s a) (conserved : Conserved s) : Conserved (next s a) := by
  intro stream
  have before := conserved stream
  simp only [State.output] at before
  cases a with
  | write source bytes =>
    simp only [next, State.output]
    rcases eq_or_ne stream source with rfl | other
    · rw [Function.update_self, Function.update_self, before, List.append_assoc]
    · rwa [Function.update_of_ne other, Function.update_of_ne other]
  | childExit status => exact before
  | kill => exact before
  | checkSpawned source =>
    simp only [next, State.setReader, State.output]
    rcases eq_or_ne stream source with rfl | other
    · rw [enabled] at before
      rw [Function.update_self]
      split <;> exact before
    · rwa [Function.update_of_ne other]
  | checkKilled source =>
    simp only [next, State.setReader, State.output]
    rcases eq_or_ne stream source with rfl | other
    · rw [enabled] at before
      rw [Function.update_self]
      split <;> exact before
    · rwa [Function.update_of_ne other]
  | read source n =>
    rcases eq_or_ne stream source with rfl | other
    · rw [enabled.1] at before
      simp only [next]
      split
      · simpa [State.setReader, State.output, ReaderPc.held] using before
      · simpa only [State.setReader, State.output, Function.update_self, ReaderPc.held,
          List.append_assoc, List.take_append_drop, List.append_nil] using before
    · simp only [next]
      split <;> simpa only [State.setReader, State.output, Function.update_of_ne other] using before
  | enqueue source =>
    obtain ⟨chunk, holding⟩ := enabled
    simp only [next, holding, State.setReader, State.enqueueCallback, State.output,
      List.flatMap_append, List.flatMap_singleton, Callback.emitted]
    rcases eq_or_ne stream source with rfl | other
    · rw [holding] at before
      rw [Function.update_self, if_pos rfl, before]
      simp [ReaderPc.held]
    · rwa [Function.update_of_ne other, if_neg other.symm, List.append_nil]
  | waitpid =>
    simp only [next]
    split <;> exact before
  | clearSpawned =>
    simp only [next]
    split <;> exact before
  | recordStatus =>
    simp only [next]
    split <;> exact before
  | enqueueExit =>
    simpa [State.output, next, State.enqueueCallback, Callback.emitted] using before
  | other =>
    simpa [State.output, next, State.enqueueCallback, Callback.emitted] using before

theorem conserved (reachable : child.Reachable s) : Conserved s :=
  reachable.invariant (fun _ => rfl) fun _ _ _ enabled before => conserved_next enabled before

/-! ### When a reader is done -/

/-- What ends a reader: a flag, or a `read` that returns nothing. -/
theorem reader_next_eq_done_iff (enabled : Enabled s a) :
    (next s a).reader stream = .done ↔ s.reader stream = .done ∨
      a = .checkSpawned stream ∧ s.spawned = false ∨ a = .checkKilled stream ∧ s.killed = true ∨
      a = .read stream 0 := by
  cases a with
  | checkSpawned source =>
    rcases eq_or_ne stream source with rfl | other
    · have here : s.reader stream = .checkSpawned := enabled
      cases flag : s.spawned <;> simp [next, State.setReader, here, flag]
    · simp [next, State.setReader, Function.update_of_ne other, other.symm]
  | checkKilled source =>
    rcases eq_or_ne stream source with rfl | other
    · have here : s.reader stream = .checkKilled := enabled
      cases flag : s.killed <;> simp [next, State.setReader, here, flag]
    · simp [next, State.setReader, Function.update_of_ne other, other.symm]
  | read source n =>
    rcases eq_or_ne stream source with rfl | other
    · have here : s.reader stream = .reading := enabled.1
      rcases eq_or_ne n 0 with rfl | some
      · simp [next, State.setReader]
      · simp [next, State.setReader, here, some]
    · rcases eq_or_ne n 0 with rfl | some
      · simp [next, State.setReader, Function.update_of_ne other, other.symm]
      · simp [next, State.setReader, Function.update_of_ne other, some]
  | enqueue source =>
    obtain ⟨chunk, holding⟩ := enabled
    rcases eq_or_ne stream source with rfl | other
    · simp [next, holding, State.setReader]
    · simp [next, holding, State.setReader, State.enqueueCallback, Function.update_of_ne other]
  | waitpid | clearSpawned | recordStatus =>
    simp only [next]
    split <;> simp
  | write | childExit | kill | enqueueExit | other => simp [next, State.enqueueCallback]

/-- A pipe is filled by the child and emptied by its reader. -/
theorem pipe_next : (next s a).pipe stream =
    match a with
    | .write source bytes => if source = stream then s.pipe stream ++ bytes else s.pipe stream
    | .read source n => if source = stream then (s.pipe stream).drop n else s.pipe stream
    | _ => s.pipe stream := by
  cases a with
  | write source bytes =>
    rcases eq_or_ne stream source with rfl | other
    · simp [next]
    · simp [next, Function.update_of_ne other, other.symm]
  | read source n =>
    rcases eq_or_ne stream source with rfl | other
    · rcases eq_or_ne n 0 with rfl | some
      · simp [next, State.setReader]
      · simp [next, State.setReader, some]
    · rcases eq_or_ne n 0 with rfl | some
      · simp [next, State.setReader, other.symm]
      · simp [next, State.setReader, some, Function.update_of_ne other, other.symm]
  | enqueue | waitpid | clearSpawned | recordStatus =>
    simp only [next]
    split <;> rfl
  | childExit | kill | checkSpawned | checkKilled | enqueueExit | other => rfl

/-- A child exits once. -/
theorem status_next (enabled : Enabled s a) : (next s a).status =
    match a with
    | .childExit status => some status
    | _ => s.status := by
  cases a with
  | read source n =>
    simp only [next]
    split <;> rfl
  | enqueue | waitpid | clearSpawned | recordStatus =>
    simp only [next]
    split <;> rfl
  | write | childExit | kill | checkSpawned | checkKilled | enqueueExit | other => rfl

/-- Unless it was killed, a child has exited before `spawned` is cleared and before a reader is
done. -/
structure Timely (s : State) : Prop where
  waiter : s.waiter ≠ .waiting → s.status ≠ none
  spawned : s.spawned = false → s.status ≠ none
  reader : ∀ stream, s.reader stream = .done → s.status ≠ none
  killed : s.killed = false

/-- The runs without a call of `kill`. -/
def undisturbed : Machine State Action := child.restrict fun _ a => a ≠ .kill

/-- The flags change by `kill` and by the waiter, which first waits. -/
theorem flags_next (enabled : Enabled s a) :
    ((next s a).killed = true → s.killed = true ∨ a = .kill) ∧
      ((next s a).spawned = false → s.spawned = false ∨ s.waiter ≠ .waiting) ∧
      ((next s a).waiter ≠ .waiting → s.waiter ≠ .waiting ∨ s.status ≠ none) := by
  cases a with
  | waitpid =>
    obtain ⟨waiting, ended⟩ := enabled
    obtain ⟨status, known⟩ := Option.ne_none_iff_exists'.mp ended
    simp +contextual [next, known]
  | clearSpawned | recordStatus =>
    obtain ⟨status, waited⟩ := enabled
    cases status <;> simp +contextual [next, waited]
  | enqueueExit =>
    have recorded : s.waiter = .recorded := enabled
    simp +contextual [next, State.enqueueCallback, recorded]
  | read source n =>
    simp only [next]
    split <;> simp +contextual [State.setReader]
  | enqueue source =>
    simp only [next]
    split <;> simp +contextual [State.setReader, State.enqueueCallback]
  | write | childExit | kill | checkSpawned | checkKilled | other =>
    simp +contextual [next, State.setReader, State.enqueueCallback]

theorem timely_next (enabled : Enabled s a) (noKill : a ≠ .kill) (timely : Timely s) :
    Timely (next s a) := by
  obtain ⟨killed, spawned, waiter⟩ := flags_next enabled
  have ended : s.status ≠ none → (next s a).status ≠ none := by
    intro ended
    rw [status_next enabled]
    split
    · exact Option.some_ne_none _
    · exact ended
  refine ⟨?_, ?_, ?_, ?_⟩
  · intro moved
    exact ended ((waiter moved).elim timely.waiter id)
  · intro cleared
    exact ended ((spawned cleared).elim timely.spawned timely.waiter)
  · intro stream done
    rcases (reader_next_eq_done_iff enabled).mp done with before | ⟨_, cleared⟩ | ⟨_, flag⟩ | rfl
    · exact ended (timely.reader stream before)
    · exact ended (timely.spawned cleared)
    · exact absurd (timely.killed.symm.trans flag) Bool.false_ne_true
    · exact ended (enabled.2.2.2 rfl).2
  · rw [Bool.eq_false_iff]
    intro flag
    rcases killed flag with before | kill
    · exact absurd (timely.killed.symm.trans before) Bool.false_ne_true
    · exact noKill kill

theorem timely (reachable : undisturbed.Reachable s) : Timely s := by
  apply reachable.invariant
  · exact ⟨fun moved => absurd rfl moved, fun cleared => Bool.noConfusion cleared,
      fun _ done => ReaderPc.noConfusion done, rfl⟩
  · intro s a _ enabled before
    exact timely_next enabled.1 enabled.2 before

/-! ### What a reader leaves behind -/

/-- The reader of a stream has left nothing in the pipe. -/
def Drained (stream : Stream) (s : State) : Prop := s.reader stream = .done → s.pipe stream = []

/-- A reader that finds `spawned` cleared finds its pipe empty. -/
def Unhurried (stream : Stream) (s : State) (a : Action) : Prop :=
  a = .checkSpawned stream → s.spawned = false → s.pipe stream = []

theorem drained_next_iff (enabled : Enabled s a) (timely : Timely s) :
    Drained stream (next s a) ↔ Drained stream s ∧ Unhurried stream s a := by
  rw [Drained, Drained, Unhurried, reader_next_eq_done_iff enabled, pipe_next]
  rcases Decidable.em (s.reader stream = .done) with done | working
  · -- a reader that is done stays so, and nobody writes to its pipe any more
    have ended := timely.reader stream done
    cases a with
    | write source bytes => exact absurd enabled ended
    | read source n =>
      have other : source ≠ stream := by
        rintro rfl
        exact absurd (done.symm.trans enabled.1) (by simp)
      simp [done, other]
    | checkSpawned source =>
      have other : source ≠ stream := by
        rintro rfl
        exact absurd (done.symm.trans enabled) (by simp)
      simp [done, other]
    | _ => simp [done]
  · cases a with
    | read source n =>
      rcases eq_or_ne n 0 with rfl | some
      · rcases eq_or_ne source stream with rfl | other
        · simp [working, (enabled.2.2.2 rfl).1]
        · simp [working, other]
      · simp [working, some]
    | _ => simp [working, timely.killed]

/-- Without a call of `kill`, the data enqueued for a stream whose reader is done are the bytes
written to it, if and only if its reader never finds `spawned` cleared while bytes are in the
pipe. -/
theorem output_eq_written_iff (run : child.Run child.initial as t) (noKill : .kill ∉ as)
    (done : t.reader stream = .done) :
    t.output stream = t.written stream ↔
      ∀ prior rest mid, as = prior ++ .checkSpawned stream :: rest →
        child.Run child.initial prior mid → mid.spawned = false → mid.pipe stream = [] := by
  have alone : undisturbed.Run undisturbed.initial as t := by
    refine Machine.restrict_run_iff.mpr ⟨run, ?_⟩
    rintro prior a rest mid rfl _ rfl
    exact noKill (by simp)
  have whole := alone.final_iff (P := Drained stream) (Q := Unhurried stream) .initial
    (fun s a reachable enabled => drained_next_iff enabled.1 (timely reachable))
  have start : Drained stream undisturbed.initial := fun _ => rfl
  have complete : t.output stream = t.written stream ↔ Drained stream t := by
    rw [conserved ⟨as, run⟩ stream, done, Drained, done]
    simp [ReaderPc.held]
  rw [complete, whole, and_iff_right start, Machine.restrict_run_iff, and_iff_right alone]
  constructor
  · intro unhurried prior rest mid shape before
    have aloneBefore : undisturbed.Run undisturbed.initial prior mid := by
      obtain ⟨mid', first, _⟩ := Machine.run_append_iff.mp (shape ▸ alone)
      rwa [← first.of_restrict.unique before]
    exact unhurried prior _ rest mid shape aloneBefore rfl
  · rintro unhurried prior a rest mid shape before rfl
    exact unhurried prior rest mid shape before.of_restrict

/-- Once the child has exited, a reader that is not done can go on. -/
theorem reader_goes_on (ended : s.status ≠ none) (working : s.reader stream ≠ .done) :
    Enabled s (.checkSpawned stream) ∨ Enabled s (.checkKilled stream) ∨
      (∃ n, Enabled s (.read stream n)) ∨ Enabled s (.enqueue stream) := by
  cases here : s.reader stream with
  | checkSpawned => exact .inl here
  | checkKilled => exact .inr (.inl here)
  | reading =>
    refine .inr (.inr (.inl ?_))
    rcases held : s.pipe stream with _ | ⟨byte, rest⟩
    · exact ⟨0, here, by omega, by omega, fun _ => ⟨held, ended⟩⟩
    · exact ⟨1, here, by omega, by simp [held], fun none => absurd none (by omega)⟩
  | enqueueing chunk => exact .inr (.inr (.inr ⟨chunk, here⟩))
  | done => exact absurd here working

/-- The child writes, its output is read, and then it exits. -/
def calm : List Action :=
  [.write .stdout [111, 107], .checkSpawned .stdout, .checkKilled .stdout, .read .stdout 2,
    .enqueue .stdout, .childExit (.exited 0), .checkSpawned .stdout, .checkKilled .stdout,
    .read .stdout 0]

theorem output_eq_written_calm : ∃ t, child.Run child.initial calm t ∧
    ∀ prior rest mid, calm = prior ++ .checkSpawned .stdout :: rest →
      child.Run child.initial prior mid → mid.spawned = false → mid.pipe .stdout = [] := by
  have run : child.Run child.initial calm (calm.foldl next {}) :=
    .cons rfl <| .cons rfl <| .cons rfl <|
      .cons ⟨rfl, by decide, by decide, fun none => absurd none (by decide)⟩ <| .cons ⟨_, rfl⟩ <|
      .cons rfl <| .cons rfl <| .cons rfl <|
      .cons ⟨rfl, by decide, by decide, fun _ => ⟨rfl, by decide⟩⟩ <| .nil _
  exact ⟨_, run, (output_eq_written_iff run (by decide) (by decide)).mp (by decide)⟩

/-- The child exits and is waited for before its output is read. -/
theorem not_output_eq_written :
    ¬ ∀ as t stream, child.Run child.initial as t → .kill ∉ as → t.reader stream = .done →
      t.output stream = t.written stream := by
  intro complete
  let as : List Action := [.write .stdout [111, 107], .childExit (.exited 0), .waitpid,
    .clearSpawned, .checkSpawned .stdout]
  have run : child.Run child.initial as (as.foldl next {}) :=
    .cons rfl <| .cons rfl <| .cons ⟨rfl, by decide⟩ <| .cons ⟨_, rfl⟩ <| .cons rfl <| .nil _
  exact absurd (complete as _ .stdout run (by decide) (by decide)) (by decide)

end ProtoJS.ChildProcess
