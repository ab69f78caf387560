import ProtoJS.Runtime.EventLoop

/-! # Reading from a socket

`socketConnect`, and the accept loop of a server for the sockets it makes, start a thread that
receives until the peer has closed, an error occurs or a flag has changed. It enqueues one callback
for each chunk it receives and one more when it is done, whatever the reason. `destroy` runs on the
main thread: it sets the flags, closes the descriptor and joins the thread while it holds the main
thread up. A `recv` that has begun is not ended by the `close`.
-/

namespace ProtoJS.SocketReader

/-- Where the thread stands in its loop. -/
inductive ReaderPc where
  | checkConnected
  | checkDestroyed
  /-- At the call of `recv`, with the descriptor still to be read from `data`. -/
  | entering
  | receiving
  | enqueueing (chunk : List UInt8)
  /-- Past the loop; `end` is still to be enqueued. -/
  | ending
  | exited
deriving DecidableEq, Repr

/-- A callback in the event loop's queue. -/
inductive Posting where
  /-- The callback of the chunk of that number. -/
  | data (index : ℕ)
  | ended
  /-- A callback that has nothing to do with the socket. -/
  | other (n : ℕ)
deriving DecidableEq, Repr

/-- What a callback emits on the socket. -/
inductive Event where
  | data (bytes : List UInt8)
  | ended
deriving DecidableEq, Repr

inductive DestroyPc where
  | idle
  | joining
  | returned
deriving DecidableEq, Repr

/-- `NetSocketData` of a connected socket with its event emitter, the thread and the peer. -/
structure State where
  connected : Bool := true
  destroyed : Bool := false
  /-- The descriptor has not been closed. -/
  opened : Bool := true
  reader : ReaderPc := .checkConnected
  /-- The chunks that have been handed to the event loop. -/
  chunks : List (List UInt8) := []
  loop : EventLoop.State Posting := {}
  destroy : DestroyPc := .idle
  /-- What has been emitted on the socket. -/
  events : List Event := []
  /-- All that the peer has sent. -/
  sent : List UInt8 := []
  peerClosed : Bool := false
  /-- How much of it `recv` has returned. -/
  received : ℕ := 0
  /-- `recv` has failed on an open descriptor. -/
  failed : Bool := false
deriving DecidableEq, Repr

inductive Action where
  | peerSend (bytes : List UInt8)
  | peerClose
  | checkConnected
  | checkDestroyed
  | enterRecv
  /-- `recv` returns bytes. -/
  | recv (n : ℕ)
  /-- `recv` returns zero. -/
  | recvEnd
  /-- `recv` returns an error. -/
  | recvError
  | enqueueData
  | enqueueEnd
  | enqueueOther (n : ℕ)
  /-- `processCallbacks` swaps the queue out. -/
  | swap
  | call
  | finish (threw : Bool)
  | leave
  /-- `destroy` up to the join. -/
  | beginDestroy
  | join
deriving DecidableEq, Repr

namespace State

variable (s : State)

/-- The main thread is not held up in `destroy`. -/
def MainFree : Prop := s.destroy ≠ .joining

instance : Decidable s.MainFree := inferInstanceAs (Decidable (s.destroy ≠ .joining))

/-- What a callback emits when it is called. -/
def emission : Posting → List Event
  | .data index => (s.chunks[index]?.map Event.data).toList
  | .ended => [.ended]
  | .other _ => []

/-- The callback that is called next. -/
def upcoming : List Posting :=
  match s.loop.main with
  | .draining (callback :: _) => [callback]
  | _ => []

end State

def Enabled (s : State) : Action → Prop
  | .peerSend _ | .peerClose => s.peerClosed = false
  | .checkConnected => s.reader = .checkConnected
  | .checkDestroyed => s.reader = .checkDestroyed
  | .enterRecv => s.reader = .entering
  | .recv n => s.reader = .receiving ∧ 0 < n ∧ n ≤ 4096 ∧ s.received + n ≤ s.sent.length
  | .recvEnd => s.reader = .receiving ∧ s.received = s.sent.length ∧ s.peerClosed = true
  | .recvError => s.reader = .receiving
  | .enqueueData => ∃ chunk, s.reader = .enqueueing chunk
  | .enqueueEnd => s.reader = .ending
  | .enqueueOther n => EventLoop.Enabled s.loop (.enqueueCallback (.other n))
  | .swap => s.MainFree ∧ EventLoop.Enabled s.loop .processCallbacks
  | .call => s.MainFree ∧ EventLoop.Enabled s.loop .call
  | .finish threw => s.MainFree ∧ EventLoop.Enabled s.loop (.finish threw)
  | .leave => s.MainFree ∧ EventLoop.Enabled s.loop .leave
  -- a second `destroy` finds the flag set and returns
  | .beginDestroy => s.destroy = .idle ∧ ∀ batch, s.loop.main ≠ .draining batch
  | .join => s.destroy = .joining ∧ s.reader = .exited

instance (s : State) : DecidablePred (Enabled s)
  | .peerSend _ | .peerClose => inferInstanceAs (Decidable (s.peerClosed = false))
  | .checkConnected | .checkDestroyed | .enterRecv | .recvError | .enqueueEnd =>
    inferInstanceAs (Decidable (s.reader = _))
  | .recv _ => inferInstanceAs (Decidable (_ ∧ _ ∧ _ ∧ _))
  | .recvEnd => inferInstanceAs (Decidable (_ ∧ _ ∧ _))
  | .enqueueData => match found : s.reader with
    | .enqueueing chunk => isTrue ⟨chunk, found⟩
    | .checkConnected | .checkDestroyed | .entering | .receiving | .ending | .exited =>
      isFalse (by simp [Enabled, found])
  | .enqueueOther n =>
    inferInstanceAs (Decidable (EventLoop.Enabled s.loop (.enqueueCallback (.other n))))
  | .swap | .call | .finish _ | .leave | .join => inferInstanceAs (Decidable (_ ∧ _))
  | .beginDestroy => match found : s.loop.main with
    | .draining batch => isFalse fun enabled => enabled.2 batch found
    | .outside | .calling _ _ =>
      decidable_of_iff (s.destroy = .idle) (by simp [Enabled, found])

def next (s : State) : Action → State
  | .peerSend bytes => { s with sent := s.sent ++ bytes }
  | .peerClose => { s with peerClosed := true }
  | .checkConnected => { s with reader := if s.connected then .checkDestroyed else .ending }
  | .checkDestroyed => { s with reader := if s.destroyed then .ending else .entering }
  | .enterRecv =>
    if s.opened then { s with reader := .receiving }
    -- `recv` on a closed descriptor fails
    else { s with connected := false, reader := .ending }
  | .recv n =>
    { s with
      reader := .enqueueing ((s.sent.drop s.received).take n)
      received := s.received + n }
  | .recvEnd => { s with connected := false, reader := .ending }
  | .recvError => { s with connected := false, reader := .ending, failed := true }
  | .enqueueData => match s.reader with
    | .enqueueing chunk =>
      { s with
        reader := .checkConnected
        chunks := s.chunks ++ [chunk]
        loop := EventLoop.next s.loop (.enqueueCallback (.data s.chunks.length)) }
    | _ => s
  | .enqueueEnd =>
    { s with
      reader := .exited
      loop := EventLoop.next s.loop (.enqueueCallback .ended) }
  | .enqueueOther n => { s with loop := EventLoop.next s.loop (.enqueueCallback (.other n)) }
  | .swap => { s with loop := EventLoop.next s.loop .processCallbacks }
  | .call =>
    { s with
      loop := EventLoop.next s.loop .call
      events := s.events ++ s.upcoming.flatMap s.emission }
  | .finish threw => { s with loop := EventLoop.next s.loop (.finish threw) }
  | .leave => { s with loop := EventLoop.next s.loop .leave }
  | .beginDestroy =>
    { s with destroyed := true, connected := false, opened := false, destroy := .joining }
  | .join => { s with destroy := .returned }

/-- A socket from the start of its thread on. -/
def socket : Machine State Action where
  initial := {}
  Enabled := Enabled
  next := next

instance (s : State) (a : Action) : Decidable (socket.Enabled s a) :=
  inferInstanceAs (Decidable (Enabled s a))

variable {s t : State} {a : Action} {as : List Action}

section Conservation

/-- The bytes that the thread has received and not handed on. -/
def ReaderPc.held : ReaderPc → List UInt8
  | .enqueueing chunk => chunk
  | _ => []

/-- What has been received is in the chunks, in order, or with the thread. -/
structure Conserved (s : State) : Prop where
  bytes : s.chunks.flatten ++ s.reader.held = s.sent.take s.received
  bound : s.received ≤ s.sent.length
  sizes : ∀ chunk ∈ s.chunks, 0 < chunk.length ∧ chunk.length ≤ 4096
  held : ∀ chunk, s.reader = .enqueueing chunk → 0 < chunk.length ∧ chunk.length ≤ 4096

private theorem conserved_same (conserved : Conserved s) (chunks : t.chunks = s.chunks)
    (reader : ∀ chunk, t.reader = .enqueueing chunk ↔ s.reader = .enqueueing chunk)
    (held : t.reader.held = s.reader.held)
    (rest : t.sent = s.sent ∧ t.received = s.received) : Conserved t := by
  obtain ⟨sent, received⟩ := rest
  refine ⟨?_, ?_, ?_, fun chunk there => conserved.held chunk ((reader chunk).mp there)⟩
  · rw [chunks, held, sent, received]
    exact conserved.bytes
  · rw [sent, received]
    exact conserved.bound
  · rw [chunks]
    exact conserved.sizes

theorem conserved_next (enabled : Enabled s a) (conserved : Conserved s) : Conserved (next s a) := by
  have moved {t : State} (before : s.reader.held = [] ∧ ∀ chunk, s.reader ≠ .enqueueing chunk)
      (after : t.reader.held = [] ∧ ∀ chunk, t.reader ≠ .enqueueing chunk)
      (chunks : t.chunks = s.chunks) (rest : t.sent = s.sent ∧ t.received = s.received) :
      Conserved t := by
    refine conserved_same conserved chunks (fun chunk => ?_) ?_ rest
    · exact iff_of_false (after.2 chunk) (before.2 chunk)
    · rw [after.1, before.1]
  cases a with
  | peerSend bytes =>
    refine ⟨?_, ?_, conserved.sizes, conserved.held⟩
    · change s.chunks.flatten ++ s.reader.held = (s.sent ++ bytes).take s.received
      rw [conserved.bytes, List.take_append_of_le_length conserved.bound]
    · change s.received ≤ (s.sent ++ bytes).length
      rw [List.length_append]
      exact conserved.bound.trans (Nat.le_add_right _ _)
  | checkConnected =>
    refine moved ?_ ?_ rfl ⟨rfl, rfl⟩
    · simp [show s.reader = _ from enabled, ReaderPc.held]
    · simp only [next]
      split <;> simp [ReaderPc.held]
  | checkDestroyed =>
    refine moved ?_ ?_ rfl ⟨rfl, rfl⟩
    · simp [show s.reader = _ from enabled, ReaderPc.held]
    · simp only [next]
      split <;> simp [ReaderPc.held]
  | enterRecv =>
    have entering : s.reader = .entering := enabled
    simp only [next]
    split <;> exact moved (by simp [entering, ReaderPc.held]) (by simp [ReaderPc.held]) rfl ⟨rfl, rfl⟩
  | recvEnd =>
    exact moved (by simp [enabled.1, ReaderPc.held]) (by simp [next, ReaderPc.held]) rfl ⟨rfl, rfl⟩
  | recvError =>
    have receiving : s.reader = .receiving := enabled
    exact moved (by simp [receiving, ReaderPc.held]) (by simp [next, ReaderPc.held]) rfl ⟨rfl, rfl⟩
  | enqueueEnd =>
    have ending : s.reader = .ending := enabled
    exact moved (by simp [ending, ReaderPc.held]) (by simp [next, ReaderPc.held]) rfl ⟨rfl, rfl⟩
  | recv n =>
    obtain ⟨receiving, positive, fits, there⟩ := enabled
    have length : ((s.sent.drop s.received).take n).length = n := by
      rw [List.length_take, List.length_drop]
      omega
    have before := conserved.bytes
    simp only [receiving, ReaderPc.held, List.append_nil] at before
    refine ⟨?_, there, conserved.sizes, fun chunk same => ?_⟩
    · change s.chunks.flatten ++ (s.sent.drop s.received).take n = s.sent.take (s.received + n)
      rw [before, List.take_add]
    · cases same
      rw [length]
      exact ⟨positive, fits⟩
  | enqueueData =>
    obtain ⟨chunk, holds⟩ := enabled
    have before := conserved.bytes
    rw [holds, ReaderPc.held] at before
    simp only [next, holds]
    refine ⟨?_, conserved.bound, fun other member => ?_, fun other same => by cases same⟩
    · simpa [ReaderPc.held] using before
    · rcases List.mem_append.mp member with old | new
      · exact conserved.sizes other old
      · rw [List.mem_singleton.mp new]
        exact conserved.held chunk holds
  | _ => exact conserved_same conserved rfl (fun _ => Iff.rfl) rfl ⟨rfl, rfl⟩

theorem conserved (reachable : socket.Reachable s) : Conserved s := by
  have start : Conserved socket.initial := by constructor <;> simp [socket, ReaderPc.held]
  exact reachable.invariant start fun _ _ _ enabled holds => conserved_next enabled holds

end Conservation

section Queue

/-- The callbacks of the socket among others. -/
def own? : Posting → Option Posting
  | .data index => some (.data index)
  | .ended => some .ended
  | .other _ => none

/-- What the thread has enqueued: a callback for each chunk, and one more once it is done. -/
def State.posted (s : State) : List Posting :=
  (List.range s.chunks.length).map .data ++ if s.reader = .exited then [.ended] else []

private theorem posted_same (chunks : t.chunks = s.chunks)
    (reader : t.reader = .exited ↔ s.reader = .exited) : t.posted = s.posted := by
  simp only [State.posted, chunks, reader]

private theorem pushed_loop {step : EventLoop.Action Posting}
    (quiet : ∀ callback, step ≠ .enqueueCallback callback)
    (order : s.loop.pushed.filterMap own? = s.posted) :
    (EventLoop.next s.loop step).pushed.filterMap own? = s.posted := by
  rw [EventLoop.pushed_next quiet]
  exact order

theorem posted_next (enabled : Enabled s a) (order : s.loop.pushed.filterMap own? = s.posted) :
    (next s a).loop.pushed.filterMap own? = (next s a).posted := by
  have moved {t : State} (pushed : t.loop.pushed = s.loop.pushed) (chunks : t.chunks = s.chunks)
      (before : s.reader ≠ .exited) (after : t.reader ≠ .exited) :
      t.loop.pushed.filterMap own? = t.posted := by
    rw [pushed, posted_same chunks (iff_of_false after before)]
    exact order
  cases a with
  | checkConnected =>
    refine moved rfl rfl (by simp [show s.reader = _ from enabled]) ?_
    simp only [next]
    split <;> simp
  | checkDestroyed =>
    refine moved rfl rfl (by simp [show s.reader = _ from enabled]) ?_
    simp only [next]
    split <;> simp
  | enterRecv =>
    simp only [next]
    split <;> exact moved rfl rfl (by simp [show s.reader = _ from enabled]) (by simp)
  | recv n => exact moved rfl rfl (by simp [enabled.1]) (by simp [next])
  | recvEnd => exact moved rfl rfl (by simp [enabled.1]) (by simp [next])
  | recvError => exact moved rfl rfl (by simp [show s.reader = _ from enabled]) (by simp [next])
  | enqueueData =>
    obtain ⟨chunk, holds⟩ := enabled
    simp only [State.posted, holds, reduceCtorEq, ↓reduceIte, List.append_nil] at order
    simp [next, holds, EventLoop.next, State.posted, own?, order, List.range_succ]
  | enqueueEnd =>
    have ending : s.reader = .ending := enabled
    simp only [State.posted, ending, reduceCtorEq, ↓reduceIte, List.append_nil] at order
    simp [next, EventLoop.next, State.posted, own?, order]
  | enqueueOther n =>
    change (s.loop.pushed ++ [Posting.other n]).filterMap own? = s.posted
    simpa [own?, List.filterMap_cons] using order
  | swap => exact pushed_loop (by simp) order
  | call => exact pushed_loop (by simp) order
  | finish threw => exact pushed_loop (by simp) order
  | leave => exact pushed_loop (by simp) order
  | _ => exact order

theorem pushed_eq (reachable : socket.Reachable s) :
    s.loop.pushed.filterMap own? = s.posted :=
  reachable.invariant (P := fun s => s.loop.pushed.filterMap own? = s.posted) rfl
    fun _ _ _ enabled order => posted_next enabled order

/-- The steps of the event loop that a step of the socket makes. -/
def toLoopActions (s : State) : Action → List (EventLoop.Action Posting)
  | .enqueueData => [.enqueueCallback (.data s.chunks.length)]
  | .enqueueEnd => [.enqueueCallback .ended]
  | .enqueueOther n => [.enqueueCallback (.other n)]
  | .swap => [.processCallbacks]
  | .call => [.call]
  | .finish threw => [.finish threw]
  | .leave => [.leave]
  | _ => []

/-- The socket drives one event loop; each of its callbacks is new. -/
def loopRefinement : socket.Refinement (EventLoop.loop Posting) where
  abs := State.loop
  emits := toLoopActions
  initial := rfl
  step s a reachable enabled := by
    have fresh {callback : Posting} (mine : own? callback = some callback)
        (absent : callback ∉ s.posted) : callback ∉ s.loop.pushed := fun member => by
      rw [← pushed_eq reachable] at absent
      exact absent (List.mem_filterMap.mpr ⟨callback, member, mine⟩)
    change (EventLoop.loop Posting).Run s.loop (toLoopActions s a) (next s a).loop
    cases a with
    | enqueueData =>
      obtain ⟨chunk, holds⟩ := enabled
      simp only [next, holds]
      refine .single (a := EventLoop.Action.enqueueCallback _) (fresh rfl ?_)
      simp [State.posted, holds]
    | enqueueEnd =>
      refine .single (a := EventLoop.Action.enqueueCallback _) (fresh rfl ?_)
      simp [State.posted, show s.reader = .ending from enabled]
    | enqueueOther n => exact .single (a := EventLoop.Action.enqueueCallback _) enabled
    | swap => exact .single (a := EventLoop.Action.processCallbacks) enabled.2
    | call => exact .single (a := EventLoop.Action.call) enabled.2
    | finish threw => exact .single (a := EventLoop.Action.finish threw) enabled.2
    | leave => exact .single (a := EventLoop.Action.leave) enabled.2
    | enterRecv =>
      simp only [next]
      split <;> exact .nil _
    | _ => exact .nil _

end Queue

section Events

/-- What the callbacks enqueued so far emit. -/
def State.stream (s : State) : List Event :=
  s.chunks.map .data ++ if s.reader = .exited then [.ended] else []

end Events

section Ending

/-- Why the thread ends. -/
structure Endings (s : State) : Prop where
  connected : s.connected = false →
    s.destroyed = true ∨ s.reader = .ending ∨ s.reader = .exited
  opened : s.opened = false → s.destroyed = true
  cut : s.destroyed = true → s.connected = false
  destroyed : s.destroyed = true ↔ s.destroy ≠ .idle
  joined : s.destroy = .returned → s.reader = .exited
  whole : s.reader = .ending ∨ s.reader = .exited → s.destroyed = false → s.failed = false →
    s.peerClosed = true ∧ s.received = s.sent.length

theorem endings_next (enabled : Enabled s a) (endings : Endings s) : Endings (next s a) := by
  obtain ⟨connected, opened, cut, destroyed, joined, whole⟩ := endings
  cases a with
  | peerSend bytes =>
    have opened' : s.peerClosed = false := enabled
    refine ⟨connected, opened, cut, destroyed, joined, fun there kept healthy => ?_⟩
    cases opened'.symm.trans (whole there kept healthy).1
  | peerClose =>
    have opened' : s.peerClosed = false := enabled
    refine ⟨connected, opened, cut, destroyed, joined, fun there kept healthy => ?_⟩
    cases opened'.symm.trans (whole there kept healthy).1
  | checkConnected =>
    have there : s.reader = .checkConnected := enabled
    simp only [there, reduceCtorEq, or_self, or_false] at connected
    simp only [there, reduceCtorEq, imp_false] at joined
    refine ⟨fun lost => .inl (connected lost), opened, cut, destroyed,
      fun returned => (joined returned).elim, fun ends kept _ => ?_⟩
    by_cases up : s.connected = true
    · simp [next, up] at ends
    · cases kept.symm.trans (connected (by simpa using up))
  | checkDestroyed =>
    have there : s.reader = .checkDestroyed := enabled
    simp only [there, reduceCtorEq, or_self, or_false] at connected
    simp only [there, reduceCtorEq, imp_false] at joined
    refine ⟨fun lost => .inl (connected lost), opened, cut, destroyed,
      fun returned => (joined returned).elim, fun ends kept _ => ?_⟩
    have alive : s.destroyed = false := kept
    simp [next, alive] at ends
  | enterRecv =>
    have there : s.reader = .entering := enabled
    simp only [there, reduceCtorEq, or_self, or_false] at connected
    simp only [there, reduceCtorEq, imp_false] at joined
    simp only [next]
    split
    · refine ⟨fun lost => .inl (connected lost), opened, cut, destroyed,
        fun returned => (joined returned).elim, fun ends => ?_⟩
      simp at ends
    · next closed =>
      have gone := opened (by simpa using closed)
      refine ⟨fun _ => .inl gone, opened, fun _ => rfl, destroyed,
        fun returned => (joined returned).elim, fun _ kept => ?_⟩
      cases gone.symm.trans kept
  | recv n =>
    simp only [enabled.1, reduceCtorEq, or_self, or_false] at connected
    simp only [enabled.1, reduceCtorEq, imp_false] at joined
    refine ⟨fun lost => .inl (connected lost), opened, cut, destroyed,
      fun returned => (joined returned).elim, fun ends => ?_⟩
    simp [next] at ends
  | recvEnd =>
    simp only [enabled.1, reduceCtorEq, imp_false] at joined
    exact ⟨fun _ => .inr (.inl rfl), opened, fun _ => rfl, destroyed,
      fun returned => (joined returned).elim, fun _ _ _ => ⟨enabled.2.2, enabled.2.1⟩⟩
  | recvError =>
    have there : s.reader = .receiving := enabled
    simp only [there, reduceCtorEq, imp_false] at joined
    refine ⟨fun _ => .inr (.inl rfl), opened, fun _ => rfl, destroyed,
      fun returned => (joined returned).elim, fun _ _ healthy => ?_⟩
    cases healthy
  | enqueueData =>
    obtain ⟨chunk, there⟩ := enabled
    simp only [there, reduceCtorEq, or_self, or_false] at connected
    simp only [there, reduceCtorEq, imp_false] at joined
    simp only [next, there]
    refine ⟨fun lost => .inl (connected lost), opened, cut, destroyed,
      fun returned => (joined returned).elim, fun ends => ?_⟩
    simp at ends
  | enqueueEnd =>
    have there : s.reader = .ending := enabled
    exact ⟨fun _ => .inr (.inr rfl), opened, cut, destroyed, fun _ => rfl,
      fun _ kept healthy => whole (.inl there) kept healthy⟩
  | beginDestroy =>
    refine ⟨fun _ => .inl rfl, fun _ => rfl, fun _ => rfl, by simp [next], fun returned => ?_,
      fun _ kept => ?_⟩
    · cases returned
    · cases kept
  | join =>
    refine ⟨connected, opened, cut, ?_, fun _ => enabled.2, whole⟩
    have gone : s.destroyed = true := destroyed.mpr (by simp [enabled.1])
    simp [next, gone]
  | enqueueOther n => exact ⟨connected, opened, cut, destroyed, joined, whole⟩
  | swap => exact ⟨connected, opened, cut, destroyed, joined, whole⟩
  | call => exact ⟨connected, opened, cut, destroyed, joined, whole⟩
  | finish threw => exact ⟨connected, opened, cut, destroyed, joined, whole⟩
  | leave => exact ⟨connected, opened, cut, destroyed, joined, whole⟩

theorem endings (reachable : socket.Reachable s) : Endings s := by
  have start : Endings socket.initial := by constructor <;> simp [socket]
  exact reachable.invariant start fun _ _ _ enabled holds => endings_next enabled holds

end Ending

section Delivery

end Delivery

section Destroy

/-- The steps that end a `recv` on an idle connection, or give it something to return. -/
def Wakes : Action → Prop
  | .peerSend bytes => bytes ≠ []
  | .peerClose | .recvError => True
  | _ => False

/-- `destroy` has come while the thread is in `recv` on a connection with nothing to receive. -/
structure HeldUp (s : State) : Prop where
  joining : s.destroy = .joining
  receiving : s.reader = .receiving
  idle : s.received = s.sent.length
  peer : s.peerClosed = false

theorem heldUp_next (enabled : Enabled s a) (asleep : ¬Wakes a) (heldUp : HeldUp s) :
    HeldUp (next s a) ∧ (next s a).events = s.events ∧
      (next s a).loop.executed = s.loop.executed := by
  obtain ⟨joining, receiving, idle, peer⟩ := heldUp
  have elsewhere {pc : ReaderPc} (there : s.reader = pc) (other : pc ≠ .receiving) {P : Prop} : P :=
    (other (there.symm.trans receiving)).elim
  cases a with
  | peerSend bytes =>
    have nothing : bytes = [] := not_not.mp asleep
    subst nothing
    refine ⟨⟨joining, receiving, ?_, peer⟩, rfl, rfl⟩
    simp [next, idle]
  | peerClose => exact (asleep trivial).elim
  | recvError => exact (asleep trivial).elim
  | checkConnected => exact elsewhere enabled (by simp)
  | checkDestroyed => exact elsewhere enabled (by simp)
  | enterRecv => exact elsewhere enabled (by simp)
  | enqueueEnd => exact elsewhere enabled (by simp)
  | enqueueData =>
    obtain ⟨chunk, there⟩ := enabled
    exact elsewhere there (by simp)
  | recv n =>
    have arrived := enabled.2
    omega
  | recvEnd => cases peer.symm.trans enabled.2.2
  | enqueueOther n => exact ⟨⟨joining, receiving, idle, peer⟩, rfl, rfl⟩
  | swap => exact (enabled.1 joining).elim
  | call => exact (enabled.1 joining).elim
  | finish threw => exact (enabled.1 joining).elim
  | leave => exact (enabled.1 joining).elim
  | beginDestroy => cases joining.symm.trans enabled.1
  | join => exact elsewhere enabled.2 (by simp)

/-- A thread that is done with its `recv` in a destroyed socket ends, and `destroy` returns. -/
theorem exists_return (joining : s.destroy = .joining) (cut : s.connected = false)
    (there : s.reader = .checkConnected ∨ s.reader = .ending) :
    ∃ as t, socket.Run s as t ∧ t.destroy = .returned := by
  have finish (u : State) (joining : u.destroy = .joining) (ending : u.reader = .ending) :
      ∃ as t, socket.Run u as t ∧ t.destroy = .returned :=
    ⟨[.enqueueEnd, .join], _, .cons (a := Action.enqueueEnd) ending
      (.single (a := Action.join) ⟨joining, rfl⟩), rfl⟩
  rcases there with checking | ending
  · obtain ⟨as, t, run, returned⟩ := finish (next s .checkConnected) joining (by simp [next, cut])
    exact ⟨_, t, .cons (a := Action.checkConnected) checking run, returned⟩
  · exact finish s joining ending

/-- `destroy` on an idle connection holds the main thread up until the peer sends something or
closes, or an error occurs: no callback of any module runs before; and then `destroy` can return. -/
theorem destroy_waits_for_the_peer (reachable : socket.Reachable s) (heldUp : HeldUp s) :
    (∀ as t, socket.Run s as t → (∀ a ∈ as, ¬Wakes a) →
      t.destroy = .joining ∧ t.events = s.events ∧ t.loop.executed = s.loop.executed) ∧
    ∀ a, Wakes a → Enabled s a → ∃ as t, socket.Run (next s a) as t ∧ t.destroy = .returned := by
  constructor
  · intro as t run asleep
    have still : HeldUp t ∧ t.events = s.events ∧ t.loop.executed = s.loop.executed := by
      refine run.preserves_of (P := fun u => HeldUp u ∧ u.events = s.events ∧
        u.loop.executed = s.loop.executed) ⟨heldUp, rfl, rfl⟩ asleep ?_
      rintro u a enabled quiet ⟨held, events, executed⟩
      obtain ⟨held', events', executed'⟩ := heldUp_next enabled quiet held
      exact ⟨held', events'.trans events, executed'.trans executed⟩
    exact ⟨still.1.joining, still.2⟩
  · intro a wakes enabled
    obtain ⟨joining, receiving, idle, peer⟩ := heldUp
    have gone : s.destroyed = true := (endings reachable).destroyed.mpr (by simp [joining])
    have cut : s.connected = false := (endings reachable).cut gone
    cases a with
    | peerSend bytes =>
      have some : 0 < bytes.length := List.length_pos_iff.mpr wakes
      have arrived : Enabled (next s (.peerSend bytes)) (.recv 1) := by
        refine ⟨receiving, one_pos, by omega, ?_⟩
        simp only [next, List.length_append]
        omega
      have handed : Enabled (next (next s (.peerSend bytes)) (.recv 1)) .enqueueData := ⟨_, rfl⟩
      obtain ⟨as, t, run, returned⟩ := exists_return
        (s := next (next (next s (.peerSend bytes)) (.recv 1)) .enqueueData) joining cut (.inl rfl)
      exact ⟨_, t, .cons (a := Action.recv 1) arrived
        (.cons (a := Action.enqueueData) handed run), returned⟩
    | peerClose =>
      obtain ⟨as, t, run, returned⟩ := exists_return (s := next (next s .peerClose) .recvEnd)
        joining rfl (.inr rfl)
      exact ⟨_, t, .cons (a := Action.recvEnd) ⟨receiving, idle, rfl⟩ run, returned⟩
    | recvError => exact exists_return joining rfl (.inr rfl)
    | _ => exact wakes.elim

/-- The script destroys a socket whose peer is silent. -/
theorem destroy_waits_for_the_peer_silent : ∃ s, socket.Run {}
    [.checkConnected, .checkDestroyed, .enterRecv, .beginDestroy] s ∧
      ∀ as t, socket.Run s as t → (∀ a ∈ as, ¬Wakes a) → t.destroy = .joining := by
  obtain ⟨s, run, joining, receiving, idle, peer⟩ := socket.exists_run_of_replay {}
    [.checkConnected, .checkDestroyed, .enterRecv, .beginDestroy]
    (fun s => s.destroy = .joining ∧ s.reader = .receiving ∧ s.received = s.sent.length ∧
      s.peerClosed = false) (by decide)
  exact ⟨s, run, fun as t later asleep =>
    ((destroy_waits_for_the_peer ⟨_, run⟩ ⟨joining, receiving, idle, peer⟩).1 as t later asleep).1⟩

end Destroy

end ProtoJS.SocketReader
