import ProtoJS.Machine.Descriptors
import ProtoJS.Machine.Run

/-! # Who closes a file descriptor

Three modules obtain descriptors and keep their numbers in objects: the accept loop of an HTTP
server, `cluster.fork` and `child_process.spawn`. Each closes some of them itself and leaves others
to a destructor, which closes every number that is not negative. The numbers are not reset, except
by `disconnect`. The objects share the descriptor table of the process with each other and with code
that closes its own descriptors once. A call makes its calls of `close` one by one, and anything
that belongs to another object may happen in between.
-/

namespace ProtoJS.DescriptorOwners

/-! ### The objects -/

/-- The places an object keeps a number in. -/
inductive Field
  | clientFd
  | ipcFd (side : Fin 2)
  | stdinFd (side : Fin 2)
  | stdoutFd (side : Fin 2)
  | stderrFd (side : Fin 2)
  | foreignFd
deriving DecidableEq, Repr

/-- What the accept loop has done with a connection. -/
inductive Loop
  | accepted
  | answered
  | closed
deriving DecidableEq, Repr

/-- The `ServerResponse` of a connection. -/
inductive ResponseObject
  | none
  | kept
  | finalized
deriving DecidableEq, Repr

/-- A call of `cluster.fork` and the worker object it makes. -/
inductive Worker
  | paired
  | unmade
  | created
  | forkFailed
  /-- The process runs; whether `ipcFd[1]` is still set. -/
  | running (connected : Bool)
  | finalized
deriving DecidableEq, Repr

/-- A `ChildProcess` object, with the number of pipes that were made for it. -/
inductive Child
  | making (pipes : ℕ)
  /-- The data was deleted, and the object still points to it. -/
  | failed (pipes : ℕ)
  | running
  | finalized (pipes : ℕ)
deriving DecidableEq, Repr

inductive Object
  | absent
  | connection (loop : Loop) (response : ResponseObject)
  | worker (state : Worker)
  | child (state : Child)
  /-- Another part of the process, with one descriptor. -/
  | foreign (isOpen : Bool)
deriving DecidableEq, Repr

/-- What a `ChildProcessData` holds, in the order in which its destructor closes it. -/
def stored (pipes : ℕ) : List Field :=
  [.stdinFd 0, .stdinFd 1, .stdoutFd 0, .stdoutFd 1, .stderrFd 0, .stderrFd 1].take (2 * pipes)

/-! ### What the objects do -/

inductive Action
  /-- `accept` returns a number. -/
  | accept (number : ℕ)
  /-- `read` returns; whether there was anything. -/
  | read (received : Bool)
  /-- `close(clientFd)` at the end of the loop. -/
  | closeClient
  | socketpair (numbers : Fin 2 → ℕ)
  /-- `JS_NewObjectClass` fails. -/
  | newWorkerFails
  | newWorker
  | newChild
  | pipe (numbers : Fin 2 → ℕ)
  | pipeFails
  | forkFails
  | forkSucceeds
  | disconnect
  /-- The finalizer of the object is called. -/
  | finalize
  | foreignOpen (number : ℕ)
  | foreignClose

/-- What an action means for the descriptors of the object. -/
inductive Move
  | obtain (numbers : List (Field × ℕ))
  /-- Calls of `close` to be made one by one. -/
  | schedule (fields : List Field)
  | close (field : Field)
deriving DecidableEq, Repr

def both (field : Fin 2 → Field) (numbers : Fin 2 → ℕ) : Move :=
  .obtain [(field 0, numbers 0), (field 1, numbers 1)]

def act : Object → Action → Option (Object × Move)
  -- HTTPModule::serverListen and ~HTTPResponseData
  | .absent, .accept n => some (.connection .accepted .none, .obtain [(.clientFd, n)])
  | .connection .accepted .none, .read true => some (.connection .answered .kept, .schedule [])
  | .connection .accepted .none, .read false => some (.connection .answered .none, .schedule [])
  | .connection .answered response, .closeClient =>
    some (.connection .closed response, .close .clientFd)
  | .connection loop .kept, .finalize => some (.connection loop .finalized, .close .clientFd)
  -- ClusterModule::fork, workerDisconnect and ~ClusterWorkerData
  | .absent, .socketpair numbers => some (.worker .paired, both .ipcFd numbers)
  | .worker .paired, .newWorkerFails => some (.worker .unmade, .schedule [.ipcFd 0, .ipcFd 1])
  | .worker .paired, .newWorker => some (.worker .created, .schedule [])
  | .worker .created, .forkFails =>
    some (.worker .forkFailed, .schedule ([.ipcFd 0, .ipcFd 1] ++ [.ipcFd 0, .ipcFd 1]))
  | .worker .created, .forkSucceeds => some (.worker (.running true), .schedule [.ipcFd 0])
  | .worker (.running connected), .disconnect =>
    some (.worker (.running false), .schedule (if connected then [.ipcFd 1] else []))
  | .worker (.running connected), .finalize =>
    some (.worker .finalized, .schedule (.ipcFd 0 :: if connected then [.ipcFd 1] else []))
  -- ChildProcessModule::spawnProcess and ~ChildProcessData
  | .absent, .newChild => some (.child (.making 0), .schedule [])
  | .child (.making 0), .pipe numbers => some (.child (.making 1), both .stdinFd numbers)
  | .child (.making 1), .pipe numbers => some (.child (.making 2), both .stdoutFd numbers)
  | .child (.making 2), .pipe numbers => some (.child (.making 3), both .stderrFd numbers)
  | .child (.making pipes), .pipeFails =>
    if pipes < 3 then some (.child (.failed pipes), .schedule (stored pipes)) else none
  | .child (.making 3), .forkFails => some (.child (.failed 3), .schedule (stored 3))
  | .child (.making 3), .forkSucceeds =>
    some (.child .running, .schedule [.stdinFd 0, .stdoutFd 1, .stderrFd 1])
  | .child .running, .finalize => some (.child (.finalized 3), .schedule (stored 3))
  | .child (.failed pipes), .finalize =>
    some (.child (.finalized pipes), .schedule (stored pipes))
  -- the rest of the process
  | .absent, .foreignOpen n => some (.foreign true, .obtain [(.foreignFd, n)])
  | .foreign true, .foreignClose => some (.foreign false, .close .foreignFd)
  | _, _ => none

/-! ### The process -/

structure Process where
  descriptors : Descriptors (ℕ × Field) := {}
  object : ℕ → Object := fun _ => .absent
  /-- The calls of `close` that the running call of an object has before it. -/
  pending : ℕ → List Field := fun _ => []

inductive Step
  | act (o : ℕ) (action : Action)
  /-- The running call of an object makes its next call of `close`. -/
  | proceed (o : ℕ)

/-- The system gives out numbers that are free and differ. -/
def Move.Possible (d : Descriptors (ℕ × Field)) : Move → Prop
  | .obtain numbers => (∀ n ∈ numbers.map Prod.snd, d.table n = none) ∧ (numbers.map Prod.snd).Nodup
  | _ => True

instance (d : Descriptors (ℕ × Field)) : DecidablePred (Move.Possible d)
  | .obtain numbers =>
    inferInstanceAs (Decidable ((∀ n ∈ numbers.map Prod.snd, d.table n = none) ∧
      (numbers.map Prod.snd).Nodup))
  | .schedule _ => .isTrue trivial
  | .close _ => .isTrue trivial

namespace Process

variable (s : Process)

def move (o : ℕ) (object : Object) : Move → Process
  | .obtain numbers =>
    { s with
      descriptors := s.descriptors.giveAll (numbers.map fun (field, n) => ((o, field), n))
      object := Function.update s.object o object }
  | .schedule fields =>
    { s with
      object := Function.update s.object o object
      pending := Function.update s.pending o fields }
  | .close field =>
    { s with
      descriptors := s.descriptors.close (o, field)
      object := Function.update s.object o object }

def Enabled : Step → Prop
  | .act o action =>
    s.pending o = [] ∧ ∃ result ∈ act (s.object o) action, result.2.Possible s.descriptors
  | .proceed o => s.pending o ≠ []

instance : DecidablePred s.Enabled
  | .act o action =>
    inferInstanceAs (Decidable (s.pending o = [] ∧
      ∃ result ∈ act (s.object o) action, result.2.Possible s.descriptors))
  | .proceed o => inferInstanceAs (Decidable (s.pending o ≠ []))

def next : Step → Process
  | .act o action =>
    match act (s.object o) action with
    | some (object, move) => s.move o object move
    | none => s
  | .proceed o =>
    match s.pending o with
    | field :: rest =>
      { s with
        descriptors := s.descriptors.close (o, field)
        pending := Function.update s.pending o rest }
    | [] => s

end Process

def machine : Machine Process Step where
  initial := {}
  Enabled := Process.Enabled
  next := Process.next

instance (s : Process) (step : Step) : Decidable (machine.Enabled s step) :=
  inferInstanceAs (Decidable (s.Enabled step))

/-! ### What is closed once -/

namespace Object

/-- The places that were given a number. -/
def obtained : Object → List Field
  | .absent => []
  | .connection _ _ => [.clientFd]
  | .worker _ => [.ipcFd 0, .ipcFd 1]
  | .child (.making pipes) => stored pipes
  | .child (.failed pipes) => stored pipes
  | .child .running => stored 3
  | .child (.finalized pipes) => stored pipes
  | .foreign _ => [.foreignFd]

/-- Those whose descriptors were not closed, nor are by the running call, but will be later. -/
def owed : Object → List Field
  | .connection loop response => if loop = .closed ∨ response = .finalized then [] else [.clientFd]
  | .worker .paired => [.ipcFd 0, .ipcFd 1]
  | .worker .created => [.ipcFd 0, .ipcFd 1]
  | .worker (.running connected) => if connected then [.ipcFd 1] else []
  | .child (.making pipes) => stored pipes
  | .child .running => [.stdinFd 1, .stdoutFd 0, .stderrFd 0]
  | .foreign isOpen => if isOpen then [.foreignFd] else []
  | _ => []

end Object

/-- Every call of `close` has hit the descriptor it was meant for, which its object still owned, and
of a descriptor that was obtained there is one call, made or before the running call, unless it is
owed. -/
structure ClosedOnce (s : Process) : Prop where
  right : s.descriptors.Right
  once : ∀ o field, s.descriptors.number (o, field) ≠ none →
    s.descriptors.closed.count (o, field) + (s.pending o).count field =
      if field ∈ (s.object o).owed then 0 else 1

/-- What nobody owes any more, once the running call has returned, was closed exactly once. -/
theorem ClosedOnce.count_eq_one {s : Process} {o : ℕ} {field : Field} (closedOnce : ClosedOnce s)
    (given : s.descriptors.number (o, field) ≠ none) (resting : s.pending o = [])
    (settled : field ∉ (s.object o).owed) : s.descriptors.closed.count (o, field) = 1 := by
  have calls := closedOnce.once o field given
  rwa [resting, List.count_nil, Nat.add_zero, if_neg settled] at calls

/-- The loop closes a connection whose response was not finalized, a response is finalized before
the loop closes its connection, no fork of a worker fails, no worker is finalized, and a child is
finalized only if not even its first pipe was made. -/
def suits : Object → Action → Prop
  | .connection _ response, .closeClient => response ≠ .finalized
  | .connection loop _, .finalize => loop ≠ .closed
  | .worker _, .forkFails => False
  | .worker _, .finalize => False
  | .child (.failed pipes), .finalize => pipes = 0
  | .child _, .finalize => False
  | _, _ => True

def Suits (s : Process) : Step → Prop
  | .act o action => suits (s.object o) action
  | .proceed _ => True

/-! ### Single actions -/

namespace Move

def obtains : Move → List Field
  | .obtain numbers => numbers.map Prod.fst
  | _ => []

def closes : Move → List Field
  | .schedule fields => fields
  | .close field => [field]
  | _ => []

end Move

/-- How an action changes what an object was given and what it owes. -/
structure Accounted (object object' : Object) (move : Move) : Prop where
  obtained : object'.obtained = object.obtained ++ move.obtains
  distinct : object'.obtained.Nodup
  closes : ∀ field ∈ move.closes, field ∈ object.obtained
  owed : object'.owed = (object.owed ++ move.obtains).filter (· ∉ move.closes)

/-- What an object was given, what it owes and what its running call has before it. -/
structure Accounts (s : Process) (o : ℕ) : Prop where
  obtained : ∀ field,
    s.descriptors.number (o, field) ≠ none ↔ field ∈ (s.object o).obtained
  owed : ∀ field ∈ (s.object o).obtained, field ∈ (s.object o).owed ↔
    (o, field) ∉ s.descriptors.closed ∧ field ∉ s.pending o
  pending : ∀ field ∈ s.pending o, field ∈ (s.object o).obtained

/-- The running call closes what was not closed before, each once. -/
def Clear (s : Process) (o : ℕ) : Prop :=
  (s.pending o).Nodup ∧ ∀ field ∈ s.pending o, (o, field) ∉ s.descriptors.closed

section Steps

variable {s t : Process} {o o' : ℕ} {field : Field}

/-- The accounts of an object are not touched by what happens to the others. -/
theorem Accounts.congr (accounts : Accounts s o) (object : t.object o = s.object o)
    (pending : t.pending o = s.pending o)
    (number : ∀ field, t.descriptors.number (o, field) ≠ none ↔
      s.descriptors.number (o, field) ≠ none)
    (closed : ∀ field, (o, field) ∈ t.descriptors.closed ↔ (o, field) ∈ s.descriptors.closed) :
    Accounts t o := by
  refine ⟨?_, ?_, ?_⟩
  · intro field
    rw [number, object]
    exact accounts.obtained field
  · intro field member
    rw [object] at member ⊢
    rw [closed, pending]
    exact accounts.owed field member
  · intro field member
    rw [pending] at member
    rw [object]
    exact accounts.pending field member

theorem Clear.congr (pending : t.pending o = s.pending o)
    (closed : ∀ field, (o, field) ∈ t.descriptors.closed ↔ (o, field) ∈ s.descriptors.closed) :
    Clear t o ↔ Clear s o := by
  simp only [Clear, pending, closed]

end Steps

/-! ### Whole runs -/

end ProtoJS.DescriptorOwners
