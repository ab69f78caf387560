import ProtoJS.Machine.Run

/-! # The life of a socket object

A socket object owns a descriptor and a thread that reads from it. `connect` looks at `connected`
only, which the thread takes back when the peer has closed; `destroy` gives both up, and a second
`destroy` returns at once. A `std::thread` that still has a thread can be neither assigned to nor
destroyed: the process is terminated. So an object stands in one of seven phases, and it is of use
for one connection.
-/

namespace ProtoJS.SocketLifecycle

/-- Where the thread stands. -/
inductive ReaderPc where
  | checking
  | receiving
  /-- Past the loop; `end` is still to be enqueued. -/
  | ending
  | exited
deriving DecidableEq, Repr

/-- Where the main thread stands in a call on the socket. -/
inductive MainPc where
  | free
  /-- In `connect`, past the check of `connected`. -/
  | connecting
  /-- At the join in `destroy`, which the finalizer may have called. -/
  | joining (finalizing : Bool)
deriving DecidableEq, Repr

/-- `NetSocketData`, with what becomes of its descriptors and its thread. -/
structure State where
  socketFd : Option ℕ := none
  connected : Bool := false
  destroyed : Bool := false
  /-- The thread of `readThread`, if this is joinable. -/
  readThread : Option ReaderPc := none
  main : MainPc := .free
  finalized : Bool := false
  /-- `std::terminate` has been called. -/
  terminated : Bool := false
  /-- The descriptors of connections that nobody has closed. -/
  unclosed : List ℕ := []
  /-- The connections that were made before the object was destroyed, and since. -/
  early : ℕ := 0
  late : ℕ := 0
deriving DecidableEq, Repr

inductive Action where
  /-- `connect` finds the socket unconnected. -/
  | beginConnect
  /-- The task on the IO pool returns a connected descriptor. -/
  | connected (sock : ℕ)
  | connectFailed
  /-- The thread looks at the two flags. The second one is never taken back, so it does not matter
  that it is read later. -/
  | check
  | recvData
  /-- `recv` returns zero or an error. -/
  | recvEnd
  | enqueueEnd
  | destroy
  | join
  | finalize
deriving DecidableEq, Repr

namespace State

/-- The destructor of `NetSocketData` after `destroy`. -/
def release (s : State) : State :=
  { s with finalized := true, terminated := s.readThread.isSome }

/-- `NetSocketData::destroy` up to the join, and to its end where nothing is to be joined. -/
def destroyFor (finalizing : Bool) (s : State) : State :=
  if s.destroyed then s
  else
    { s with
      destroyed := true
      connected := false
      socketFd := none
      unclosed := s.unclosed.filter fun fd => some fd ≠ s.socketFd
      main := if s.readThread.isSome then .joining finalizing else s.main }

/-- What `connect` does with the descriptor. -/
def attach (sock : ℕ) (s : State) : State :=
  { s with
    main := .free
    socketFd := some sock
    connected := true
    unclosed := sock :: s.unclosed
    readThread := some .checking
    terminated := s.readThread.isSome
    early := if s.destroyed then s.early else s.early + 1
    late := if s.destroyed then s.late + 1 else s.late }

end State

def Enabled (s : State) (a : Action) : Prop :=
  s.terminated = false ∧
    match a with
    | .beginConnect => s.main = .free ∧ s.finalized = false ∧ s.connected = false
    | .connected sock => s.main = .connecting ∧ sock ∉ s.unclosed
    | .connectFailed => s.main = .connecting
    | .check => s.readThread = some .checking
    | .recvData | .recvEnd => s.readThread = some .receiving
    | .enqueueEnd => s.readThread = some .ending
    | .destroy | .finalize => s.main = .free ∧ s.finalized = false
    | .join => (∃ finalizing, s.main = .joining finalizing) ∧ s.readThread = some .exited

instance (s : State) : DecidablePred (Enabled s)
  | .beginConnect | .connected _ | .connectFailed | .check | .recvData | .recvEnd | .enqueueEnd
  | .destroy | .finalize => inferInstanceAs (Decidable (_ ∧ _))
  | .join => inferInstanceAs (Decidable (_ ∧ (∃ _, _) ∧ _))

def next (s : State) : Action → State
  | .beginConnect => { s with main := .connecting }
  | .connected sock => s.attach sock
  | .connectFailed => { s with main := .free }
  | .check =>
    { s with readThread := some (if s.connected && !s.destroyed then .receiving else .ending) }
  | .recvData => { s with readThread := some .checking }
  | .recvEnd => { s with connected := false, readThread := some .ending }
  | .enqueueEnd => { s with readThread := some .exited }
  | .destroy => s.destroyFor false
  | .join =>
    let joined := { s with main := .free, readThread := none }
    if s.main = .joining true then joined.release else joined
  | .finalize =>
    let destroyed := s.destroyFor true
    if destroyed.main = .joining true then destroyed else destroyed.release

/-- A socket that `createConnection` makes, or the accept loop for a descriptor. -/
def socket (accepted : Option ℕ) : Machine State Action where
  initial :=
    match accepted with
    | none => {}
    | some fd =>
      { socketFd := some fd, connected := true, readThread := some .checking, unclosed := [fd]
        early := 1 }
  Enabled := Enabled
  next := next

instance (accepted : Option ℕ) (s : State) (a : Action) :
    Decidable ((socket accepted).Enabled s a) :=
  inferInstanceAs (Decidable (Enabled s a))

/-- What can be said of an object at one time. -/
inductive Phase where
  | fresh
  /-- It has had its connection, which may have ended. -/
  | attached
  | joining
  | released
  /-- It was connected once more after it had been destroyed. -/
  | revived
  /-- Terminated as a second thread was assigned. -/
  | reassigned
  /-- Terminated as the object went with a thread. -/
  | abandoned
deriving DecidableEq, Repr

def Phase.Describes (s : State) : Phase → Prop
  | .fresh => s.terminated = false ∧ s.finalized = false ∧ s.destroyed = false ∧
      s.connected = false ∧ (s.main = .free ∨ s.main = .connecting) ∧ s.readThread = none ∧
      s.socketFd = none ∧ s.unclosed = [] ∧ s.early = 0 ∧ s.late = 0
  | .attached => s.terminated = false ∧ s.finalized = false ∧ s.destroyed = false ∧
      (s.main = .free ∨ s.main = .connecting) ∧ s.readThread.isSome ∧
      (∃ fd, s.socketFd = some fd ∧ s.unclosed = [fd]) ∧ s.early = 1 ∧ s.late = 0
  | .joining => s.terminated = false ∧ s.finalized = false ∧ s.destroyed = true ∧
      s.connected = false ∧ (∃ finalizing, s.main = .joining finalizing) ∧ s.readThread.isSome ∧
      s.socketFd = none ∧ s.unclosed = [] ∧ s.early = 1 ∧ s.late = 0
  | .released => s.terminated = false ∧ s.destroyed = true ∧ s.connected = false ∧
      (s.main = .free ∨ s.main = .connecting ∧ s.finalized = false) ∧ s.readThread = none ∧
      s.socketFd = none ∧ s.unclosed = [] ∧ s.early ≤ 1 ∧ s.late = 0
  | .revived => s.terminated = false ∧ s.finalized = false ∧ s.destroyed = true ∧
      s.connected = true ∧ s.main = .free ∧
      (∃ pc, s.readThread = some pc ∧ pc ≠ .receiving) ∧
      (∃ fd, s.socketFd = some fd ∧ s.unclosed = [fd]) ∧ s.early ≤ 1 ∧ s.late = 1
  | .reassigned => s.terminated = true ∧ s.finalized = false ∧ s.destroyed = false ∧
      s.early = 2 ∧ s.late = 0
  | .abandoned => s.terminated = true ∧ s.finalized = true ∧ s.destroyed = true ∧
      (∃ fd, s.unclosed = [fd]) ∧ s.early ≤ 1 ∧ s.late = 1

/-- Where a phase leads. -/
def Phase.successors : Phase → List Phase
  | .fresh => [.attached, .released]
  | .attached => [.joining, .reassigned]
  | .joining => [.released]
  | .released => [.revived]
  | .revived => [.abandoned]
  | .reassigned | .abandoned => []

/-- One step stays in a phase or goes on to the next. -/
def Moves (s : State) (a : Action) (p : Phase) : Prop :=
  ∃ q, (q = p ∨ q ∈ p.successors) ∧ q.Describes (next s a)

variable {accepted : Option ℕ} {s t : State} {a : Action} {as : List Action} {p : Phase}

section Steps

theorem moves_fresh (describes : Phase.fresh.Describes s) (enabled : Enabled s a) :
    Moves s a .fresh := by
  obtain ⟨running, alive, undestroyed, unconnected, free, thread, fd, unclosed, early, late⟩ :=
    describes
  cases a with
  | beginConnect =>
    exact ⟨.fresh, .inl rfl, running, alive, undestroyed, unconnected, .inr rfl, thread, fd,
      unclosed, early, late⟩
  | connected sock =>
    refine ⟨.attached, .inr (by decide), ?_⟩
    simp [Phase.Describes, next, State.attach, thread, undestroyed, alive, unclosed, early, late]
  | connectFailed =>
    exact ⟨.fresh, .inl rfl, running, alive, undestroyed, unconnected, .inl rfl, thread, fd,
      unclosed, early, late⟩
  | destroy =>
    refine ⟨.released, .inr (by decide), ?_⟩
    simp [Phase.Describes, next, State.destroyFor, thread, undestroyed, alive, unclosed, early,
      late, running, enabled.2.1]
  | finalize =>
    refine ⟨.released, .inr (by decide), ?_⟩
    simp [Phase.Describes, next, State.destroyFor, State.release, thread, undestroyed, unclosed,
      early, late, enabled.2.1]
  | _ => simp [Enabled, thread] at enabled

theorem moves_attached (describes : Phase.attached.Describes s) (enabled : Enabled s a) :
    Moves s a .attached := by
  obtain ⟨running, alive, undestroyed, free, thread, ⟨fd, socketFd, unclosed⟩, early, late⟩ :=
    describes
  -- what the thread does leaves the rest as it is
  have stays (pc : ReaderPc) (connected : Bool)
      (same : next s a = { s with connected := connected, readThread := some pc }) :
      Moves s a .attached := by
    refine ⟨.attached, .inl rfl, ?_⟩
    rw [same]
    exact ⟨running, alive, undestroyed, free, rfl, ⟨fd, socketFd, unclosed⟩, early, late⟩
  cases a with
  | beginConnect =>
    exact ⟨.attached, .inl rfl, running, alive, undestroyed, .inr rfl, thread,
      ⟨fd, socketFd, unclosed⟩, early, late⟩
  | connected sock =>
    refine ⟨.reassigned, .inr (by decide), ?_⟩
    simp [Phase.Describes, next, State.attach, thread, undestroyed, alive, early, late]
  | connectFailed =>
    exact ⟨.attached, .inl rfl, running, alive, undestroyed, .inl rfl, thread,
      ⟨fd, socketFd, unclosed⟩, early, late⟩
  | check => exact stays _ s.connected rfl
  | recvData => exact stays _ s.connected rfl
  | recvEnd => exact stays _ false rfl
  | enqueueEnd => exact stays _ s.connected rfl
  | destroy =>
    refine ⟨.joining, .inr (by decide), ?_⟩
    simp [Phase.Describes, next, State.destroyFor, thread, undestroyed, alive, unclosed, socketFd,
      early, late, running]
  | join =>
    obtain ⟨_, ⟨finalizing, joining⟩, _⟩ := enabled
    rw [joining] at free
    simp at free
  | finalize =>
    refine ⟨.joining, .inr (by decide), ?_⟩
    simp [Phase.Describes, next, State.destroyFor, thread, undestroyed, alive, unclosed, socketFd,
      early, late, running]

theorem moves_joining (describes : Phase.joining.Describes s) (enabled : Enabled s a) :
    Moves s a .joining := by
  obtain ⟨running, alive, destroyed, unconnected, ⟨finalizing, joining⟩, thread, socketFd,
    unclosed, early, late⟩ := describes
  have stays (pc : ReaderPc) (same : next s a = { s with readThread := some pc }) :
      Moves s a .joining := by
    refine ⟨.joining, .inl rfl, ?_⟩
    rw [same]
    exact ⟨running, alive, destroyed, unconnected, ⟨finalizing, joining⟩, rfl, socketFd, unclosed,
      early, late⟩
  cases a with
  | check => exact stays _ rfl
  | recvData => exact stays _ rfl
  | recvEnd =>
    refine stays .ending ?_
    rw [next, ← unconnected]
  | enqueueEnd => exact stays _ rfl
  | join =>
    refine ⟨.released, .inr (by decide), ?_⟩
    cases finalizing with
    | false =>
      simp [Phase.Describes, next, joining, running, destroyed, unconnected, socketFd, unclosed,
        early, late]
    | true =>
      simp [Phase.Describes, next, State.release, joining, destroyed, unconnected, socketFd,
        unclosed, early, late]
  | _ => simp [Enabled, joining] at enabled

theorem moves_released (describes : Phase.released.Describes s) (enabled : Enabled s a) :
    Moves s a .released := by
  obtain ⟨running, destroyed, unconnected, free, thread, socketFd, unclosed, early, late⟩ :=
    describes
  cases a with
  | beginConnect =>
    exact ⟨.released, .inl rfl, running, destroyed, unconnected, .inr ⟨rfl, enabled.2.2.1⟩, thread,
      socketFd, unclosed, early, late⟩
  | connected sock =>
    have alive : s.finalized = false := by
      rcases free with free | ⟨_, alive⟩
      · simp [Enabled, free] at enabled
      · exact alive
    refine ⟨.revived, .inr (by decide), ?_⟩
    simp [Phase.Describes, next, State.attach, thread, destroyed, alive, unclosed, early, late]
  | connectFailed =>
    exact ⟨.released, .inl rfl, running, destroyed, unconnected, .inl rfl, thread, socketFd,
      unclosed, early, late⟩
  | destroy =>
    refine ⟨.released, .inl rfl, ?_⟩
    rw [next, State.destroyFor, if_pos destroyed]
    exact ⟨running, destroyed, unconnected, free, thread, socketFd, unclosed, early, late⟩
  | finalize =>
    refine ⟨.released, .inl rfl, ?_⟩
    simp [Phase.Describes, next, State.destroyFor, State.release, destroyed, unconnected, thread,
      socketFd, unclosed, early, late, enabled.2.1]
  | join => simp [Enabled, thread] at enabled
  | _ => simp [Enabled, thread] at enabled

theorem moves_revived (describes : Phase.revived.Describes s) (enabled : Enabled s a) :
    Moves s a .revived := by
  obtain ⟨running, alive, destroyed, connected, free, ⟨pc, thread, outside⟩,
    ⟨fd, socketFd, unclosed⟩, early, late⟩ := describes
  cases a with
  | check =>
    -- the object is destroyed, so the thread leaves its loop
    refine ⟨.revived, .inl rfl, running, alive, destroyed, connected, free, ⟨.ending, ?_, by simp⟩,
      ⟨fd, socketFd, unclosed⟩, early, late⟩
    simp [next, destroyed]
  | enqueueEnd =>
    exact ⟨.revived, .inl rfl, running, alive, destroyed, connected, free, ⟨.exited, rfl, by simp⟩,
      ⟨fd, socketFd, unclosed⟩, early, late⟩
  | destroy =>
    refine ⟨.revived, .inl rfl, ?_⟩
    rw [next, State.destroyFor, if_pos destroyed]
    exact ⟨running, alive, destroyed, connected, free, ⟨pc, thread, outside⟩,
      ⟨fd, socketFd, unclosed⟩, early, late⟩
  | finalize =>
    refine ⟨.abandoned, .inr (by decide), ?_⟩
    simp [Phase.Describes, next, State.destroyFor, State.release, destroyed, free, thread, unclosed,
      early, late]
  | recvData => simp [Enabled, thread, outside] at enabled
  | recvEnd => simp [Enabled, thread, outside] at enabled
  | _ => simp [Enabled, free, connected] at enabled

/-- Every step takes an object along its phases. -/
theorem moves (describes : p.Describes s) (enabled : Enabled s a) : Moves s a p := by
  cases p with
  | fresh => exact moves_fresh describes enabled
  | attached => exact moves_attached describes enabled
  | joining => exact moves_joining describes enabled
  | released => exact moves_released describes enabled
  | revived => exact moves_revived describes enabled
  | reassigned => exact absurd enabled.1 (by simp [describes.1])
  | abandoned => exact absurd enabled.1 (by simp [describes.1])

end Steps

section Runs

theorem exists_phase (reachable : (socket accepted).Reachable s) : ∃ p : Phase, p.Describes s := by
  apply reachable.invariant
  · cases accepted with
    | none => exact ⟨.fresh, by simp [Phase.Describes, socket]⟩
    | some fd => exact ⟨.attached, by simp [Phase.Describes, socket]⟩
  · rintro s a _ enabled ⟨p, describes⟩
    obtain ⟨q, _, after⟩ := moves describes enabled
    exact ⟨q, after⟩

/-- Once a destroyed object has been connected, its descriptor stays as it is. -/
theorem unclosed_next (describes : Phase.revived.Describes s) (enabled : Enabled s a) :
    (next s a).unclosed = s.unclosed := by
  obtain ⟨running, alive, destroyed, connected, free, ⟨pc, thread, outside⟩, _⟩ := describes
  cases a with
  | check | enqueueEnd => rfl
  | destroy => rw [next, State.destroyFor, if_pos destroyed]
  | finalize => simp [next, State.destroyFor, State.release, destroyed, free]
  | recvData | recvEnd => simp [Enabled, thread, outside] at enabled
  | _ => simp [Enabled, free, connected] at enabled

theorem unclosed_of_late (reachable : (socket accepted).Reachable s) (late : s.late = 1)
    (run : (socket accepted).Run s as t) : t.unclosed = s.unclosed := by
  have both := run.preserves (P := fun t => (socket accepted).Reachable t ∧ t.late = 1 ∧
    t.unclosed = s.unclosed) ⟨reachable, late, rfl⟩ (by
      rintro t a enabled ⟨reachable, late, same⟩
      obtain ⟨p, describes⟩ := exists_phase reachable
      have revived : p = .revived := by
        cases p with
        | revived => rfl
        | abandoned => exact absurd enabled.1 (by simp [describes.1])
        | fresh | attached | joining | released | reassigned =>
          simp [Phase.Describes, late] at describes
      subst revived
      obtain ⟨q, order, after⟩ := moves describes enabled
      refine ⟨reachable.next enabled, ?_, (unclosed_next describes enabled).trans same⟩
      rcases order with rfl | later
      · exact after.2.2.2.2.2.2.2.2
      · simp only [Phase.successors, List.mem_singleton] at later
        subst later
        exact after.2.2.2.2.2)
  exact both.2.2

/-- The process is terminated exactly if an object is connected a second time before it is
destroyed, or goes after it was connected since. Otherwise the object leaves no descriptor and no
thread behind. What it gets after it is destroyed is never closed. -/
theorem terminated_iff (reachable : (socket accepted).Reachable s) :
    (s.terminated = true ↔ s.early = 2 ∨ s.late = 1 ∧ s.finalized = true) ∧
    s.early ≤ 2 ∧ s.late ≤ 1 ∧
    (s.finalized = true → s.terminated = false → s.unclosed = [] ∧ s.readThread = none) ∧
    (s.late = 1 → ∃ fd, s.unclosed = [fd] ∧
      ∀ as t, (socket accepted).Run s as t → t.unclosed = [fd]) := by
  obtain ⟨p, describes⟩ := exists_phase reachable
  have kept (late : s.late = 1) (fd : ℕ) (unclosed : s.unclosed = [fd]) :
      ∃ fd, s.unclosed = [fd] ∧ ∀ as t, (socket accepted).Run s as t → t.unclosed = [fd] :=
    ⟨fd, unclosed, fun as t run => (unclosed_of_late reachable late run).trans unclosed⟩
  cases p with
  | fresh =>
    obtain ⟨running, alive, _, _, _, _, _, _, early, late⟩ := describes
    simp [running, alive, early, late]
  | attached =>
    obtain ⟨running, alive, _, _, _, _, early, late⟩ := describes
    simp [running, alive, early, late]
  | joining =>
    obtain ⟨running, alive, _, _, _, _, _, _, early, late⟩ := describes
    simp [running, alive, early, late]
  | released =>
    obtain ⟨running, _, _, _, thread, _, unclosed, early, late⟩ := describes
    refine ⟨?_, by omega, by omega, fun _ _ => ⟨unclosed, thread⟩, fun revived => ?_⟩
    · rw [running, late]
      have short : s.early ≠ 2 := by omega
      simp [short]
    · omega
  | revived =>
    obtain ⟨running, alive, _, _, _, _, ⟨fd, _, unclosed⟩, early, late⟩ := describes
    have short : s.early ≠ 2 := by omega
    refine ⟨by simp [running, alive, short], by omega, by omega, fun gone => ?_,
      fun _ => kept late fd unclosed⟩
    rw [alive] at gone
    cases gone
  | reassigned =>
    obtain ⟨terminated, alive, _, early, late⟩ := describes
    simp [terminated, alive, early, late]
  | abandoned =>
    obtain ⟨terminated, gone, _, ⟨fd, unclosed⟩, early, late⟩ := describes
    refine ⟨by simp [terminated, gone, late], by omega, by omega, fun _ running => ?_,
      fun _ => kept late fd unclosed⟩
    rw [terminated] at running
    cases running

/-- The peer closes, and the socket is connected again. -/
theorem terminated_iff_reconnected : ∃ s, (socket none).Reachable s ∧ s.terminated = true := by
  obtain ⟨s, run, early⟩ := (socket none).exists_run_of_replay {}
    [.beginConnect, .connected 3, .check, .recvEnd, .beginConnect, .connected 4]
    (fun s => s.early = 2) (by decide)
  exact ⟨s, ⟨_, run⟩, (terminated_iff ⟨_, run⟩).1.mpr (.inl early)⟩

end Runs

end ProtoJS.SocketLifecycle
