import ProtoJS.Machine.Run
import ProtoJS.Machine.Words
import ProtoJS.Strings.ByteText

/-! # The debugging server

`startCDPServer` starts a thread that listens on a port and answers its clients one by one, always
with the same response. `stopCDPServer` clears a flag and joins the thread, which looks at the flag
between two clients only. The thread gives up if it does not get the port; nothing tells the script
or `startCDPServer`, since the flag stays set. When the process exits, a thread that has not been
joined ends it with `std::terminate`.
-/

namespace ProtoJS.Debugging

open Words Strings

/-- Where the server thread stands. -/
inductive ThreadPc where
  | creating
  | binding
  | listening
  /-- At the head of the loop. -/
  | checking
  | accepting
  | receiving (client : ℕ)
  /-- With the request of the client. -/
  | sending (client : ℕ) (message : Text)
  | ended
deriving DecidableEq, Repr

inductive MainPc where
  | script
  /-- In the `join` of `stopCDPServer`. -/
  | joining
  | exited
  /-- Ended by `std::terminate`. -/
  | terminated
  /-- Ended by `SIGPIPE`. -/
  | killed
deriving DecidableEq, Repr

def generateCDPResponse (id : ℤ) (result : Text) : Text :=
  "\x7b\"id\":".toList ++ signedDecimal id ++ ",\"result\":".toList ++ result ++ ['}']

def processCDPRequest (_method _params : Text) : Text := generateCDPResponse 1 "\x7b\x7d".toList

structure State where
  serverRunning : Bool := false
  /-- `serverThread`, if it is joinable. -/
  serverThread : Option ThreadPc := none
  port : ℕ := 0
  main : MainPc := .script
  /-- What `startCDPServer` and `stopCDPServer` have returned. -/
  returned : List Bool := []
  /-- The connections that wait to be accepted. -/
  backlog : List ℕ := []
  /-- All connections there have been. -/
  connected : List ℕ := []
  /-- What has been sent to the clients. -/
  responses : List (ℕ × Text) := []
deriving DecidableEq, Repr

inductive Action where
  /-- With the number that the script gives, if any. -/
  | startCDPServer (portVal : Option ℤ)
  /-- Up to the join. -/
  | stopCDPServer
  | join
  | exit
  | connect (client : ℕ)
  | socket (ok : Bool)
  | bind (ok : Bool)
  | listen (ok : Bool)
  | check
  | accept
  | acceptFails
  /-- The bytes that are received: none if the client has closed or an error occurs. -/
  | recv (bytes : Text)
  /-- Whether the client is still there. -/
  | send (there : Bool)
deriving DecidableEq, Repr

namespace State

variable (s : State)

/-- The process is there. -/
def Alive : Prop := s.main = .script ∨ s.main = .joining

/-- The port is open. -/
def Listening : Prop :=
  match s.serverThread with
  | none | some .creating | some .binding | some .listening | some .ended => False
  | some .checking | some .accepting | some (.receiving _) | some (.sending _ _) => True

instance : Decidable s.Alive := inferInstanceAs (Decidable (_ ∨ _))

instance : Decidable s.Listening := by
  unfold Listening
  split <;> infer_instance

end State

def Enabled (s : State) : Action → Prop
  | .startCDPServer _ | .stopCDPServer | .exit => s.main = .script
  | .join => s.main = .joining ∧ s.serverThread = some .ended
  | .connect _ => s.Alive ∧ s.Listening
  | .socket _ => s.Alive ∧ s.serverThread = some .creating
  | .bind _ => s.Alive ∧ s.serverThread = some .binding
  | .listen _ => s.Alive ∧ s.serverThread = some .listening
  | .check => s.Alive ∧ s.serverThread = some .checking
  | .accept => s.Alive ∧ s.serverThread = some .accepting ∧ s.backlog ≠ []
  | .acceptFails => s.Alive ∧ s.serverThread = some .accepting
  | .recv bytes =>
    s.Alive ∧ bytes.length ≤ 4095 ∧ ∃ client, s.serverThread = some (.receiving client)
  | .send _ => s.Alive ∧ ∃ client message, s.serverThread = some (.sending client message)

/-- The thread goes on if a call succeeds, and otherwise closes its socket and ends. -/
def proceed (s : State) (ok : Bool) (pc : ThreadPc) : State :=
  { s with serverThread := some (if ok then pc else .ended) }

def next (s : State) : Action → State
  | .startCDPServer portVal =>
    if s.serverRunning then { s with returned := s.returned ++ [false] }
    -- a joinable thread would be assigned to
    else if s.serverThread.isSome then { s with serverRunning := true, main := .terminated }
    else
      { s with
        serverRunning := true
        serverThread := some .creating
        port := unsigned 16 ((portVal.map (signed 32)).getD 9229)
        returned := s.returned ++ [true] }
  | .stopCDPServer =>
    if s.serverRunning = false then { s with returned := s.returned ++ [false] }
    else if s.serverThread = none then
      { s with serverRunning := false, returned := s.returned ++ [true] }
    else { s with serverRunning := false, main := .joining }
  | .join =>
    { s with serverThread := none, main := .script, returned := s.returned ++ [true] }
  -- the static `serverThread` is destroyed
  | .exit => { s with main := if s.serverThread = none then .exited else .terminated }
  | .connect client =>
    { s with backlog := s.backlog ++ [client], connected := s.connected ++ [client] }
  | .socket ok => proceed s ok .binding
  | .bind ok => proceed s ok .listening
  | .listen ok => proceed s ok .checking
  | .check =>
    if s.serverRunning then { s with serverThread := some .accepting }
    -- the connections that still wait are closed with the socket
    else { s with serverThread := some .ended, backlog := [] }
  | .accept =>
    match s.backlog with
    | [] => s
    | client :: backlog => { s with serverThread := some (.receiving client), backlog }
  | .acceptFails => { s with serverThread := some .checking }
  | .recv bytes =>
    match s.serverThread with
    | some (.receiving client) =>
      { s with
        serverThread := some (if bytes = [] then .checking else .sending client (cString bytes)) }
    | _ => s
  | .send there =>
    match s.serverThread with
    | some (.sending client message) =>
      if there then
        { s with
          serverThread := some .checking
          responses := s.responses ++ [(client, processCDPRequest [] message)] }
      else { s with main := .killed }
    | _ => s

def debugger : Machine State Action where
  initial := {}
  Enabled := Enabled
  next := next

variable {s t : State} {a : Action} {as : List Action}

instance (s : State) : DecidablePred (Enabled s)
  | .startCDPServer _ | .stopCDPServer | .exit => inferInstanceAs (Decidable (s.main = .script))
  | .join | .connect _ | .socket _ | .bind _ | .listen _ | .check | .acceptFails =>
    inferInstanceAs (Decidable (_ ∧ _))
  | .accept => inferInstanceAs (Decidable (_ ∧ _ ∧ _))
  | .recv bytes =>
    match found : s.serverThread with
    | some (.receiving client) =>
      decidable_of_iff (s.Alive ∧ bytes.length ≤ 4095) (by simp [Enabled, found])
    | none | some .creating | some .binding | some .listening | some .checking | some .accepting
    | some (.sending _ _) | some .ended => isFalse (by simp [Enabled, found])
  | .send _ =>
    match found : s.serverThread with
    | some (.sending client message) => decidable_of_iff s.Alive (by simp [Enabled, found])
    | none | some .creating | some .binding | some .listening | some .checking | some .accepting
    | some (.receiving _) | some .ended => isFalse (by simp [Enabled, found])

instance (s : State) (a : Action) : Decidable (debugger.Enabled s a) :=
  inferInstanceAs (Decidable (Enabled s a))

/-! ### The steps of the thread -/

def Action.OfThread : Action → Prop
  | .startCDPServer _ | .stopCDPServer | .join | .exit | .connect _ => False
  | .socket _ | .bind _ | .listen _ | .check | .accept | .acceptFails | .recv _ | .send _ => True

/-- The client that the thread is busy with. -/
def ThreadPc.client : ThreadPc → List ℕ
  | .receiving client | .sending client _ => [client]
  | _ => []

/-- The clients that have been answered or may still be, in order. -/
def State.clients (s : State) : List ℕ :=
  s.responses.map Prod.fst ++ (s.serverThread.elim [] ThreadPc.client ++ s.backlog)

/-- How many steps the thread takes at most once the flag is cleared. -/
def ThreadPc.work : ThreadPc → ℕ
  | .creating | .accepting => 5
  | .binding | .receiving _ => 4
  | .listening | .sending _ _ => 3
  | .checking => 2
  | .ended => 1

def State.work (s : State) : ℕ := if s.Alive then s.serverThread.elim 0 ThreadPc.work else 0

theorem State.work_of_alive {pc : ThreadPc} (alive : s.Alive) (there : s.serverThread = some pc) :
    s.work = pc.work := by
  rw [State.work, if_pos alive, there, Option.elim_some]

theorem State.work_le (s : State) : s.work ≤ 5 := by
  have each (pc : ThreadPc) : pc.work ≤ 5 := by cases pc <;> simp [ThreadPc.work]
  rw [State.work]
  split
  · cases s.serverThread with
    | none => exact Nat.zero_le _
    | some pc => exact each pc
  · exact Nat.zero_le _

/-- What a step of the thread does. -/
structure ThreadStep (s t : State) : Prop where
  before : s.serverThread ≠ none
  after : t.serverThread ≠ none
  flag : t.serverRunning = s.serverRunning
  main : t.main = s.main ∨ t.main = .killed
  connected : t.connected = s.connected
  clients : t.clients.Sublist s.clients
  responses : ∀ response ∈ t.responses, response ∈ s.responses ∨
    response.2 = processCDPRequest [] []
  work : s.serverRunning = false → t.work < s.work

/-- A step that changes nothing but where the thread stands and what waits. -/
theorem ThreadStep.move {pc pc' : ThreadPc} {backlog : List ℕ} (alive : s.Alive)
    (before : s.serverThread = some pc)
    (clients : (pc'.client ++ backlog).Sublist (pc.client ++ s.backlog))
    (work : s.serverRunning = false → pc'.work < pc.work) :
    ThreadStep s { s with serverThread := some pc', backlog } where
  before := by simp [before]
  after := Option.some_ne_none _
  flag := rfl
  main := .inl rfl
  connected := rfl
  clients := by
    simp only [State.clients, before, Option.elim_some]
    exact clients.append_left _
  responses _ member := .inl member
  work idle := by
    have after : State.work { s with serverThread := some pc', backlog } = pc'.work :=
      State.work_of_alive alive rfl
    rw [State.work_of_alive alive before, after]
    exact work idle

theorem threadStep_next (enabled : Enabled s a) (own : a.OfThread) : ThreadStep s (next s a) := by
  cases a with
  | startCDPServer _ | stopCDPServer | join | exit | connect _ => exact own.elim
  | socket ok =>
    refine .move enabled.1 enabled.2 ?_ fun _ => ?_
    · cases ok <;> exact .refl _
    · cases ok <;> decide
  | bind ok =>
    refine .move enabled.1 enabled.2 ?_ fun _ => ?_
    · cases ok <;> exact .refl _
    · cases ok <;> decide
  | listen ok =>
    refine .move enabled.1 enabled.2 ?_ fun _ => ?_
    · cases ok <;> exact .refl _
    · cases ok <;> decide
  | check =>
    simp only [next]
    split
    · rename_i running
      exact .move enabled.1 enabled.2 (.refl _) fun idle => by simp [idle] at running
    · exact .move enabled.1 enabled.2 (List.nil_sublist _) fun _ => by decide
  | accept =>
    obtain ⟨alive, accepting, waiting⟩ := enabled
    obtain ⟨client, backlog, split⟩ := List.exists_cons_of_ne_nil waiting
    simp only [next, split]
    exact .move alive accepting (by simp [split, ThreadPc.client]) fun _ => by
      simp [ThreadPc.work]
  | acceptFails => exact .move enabled.1 enabled.2 (.refl _) fun _ => by decide
  | recv bytes =>
    obtain ⟨alive, -, client, receiving⟩ := enabled
    simp only [next, receiving]
    refine .move alive receiving ?_ fun _ => ?_
    · split
      · exact List.sublist_append_right _ _
      · exact .refl _
    · split <;> simp [ThreadPc.work]
  | send there =>
    obtain ⟨alive, client, message, sending⟩ := enabled
    have before : s.work = 3 := State.work_of_alive alive sending
    cases there with
    | false =>
      have after : next s (.send false) = { s with main := .killed } := by simp [next, sending]
      have gone : State.work { s with main := .killed } = 0 := if_neg (by simp [State.Alive])
      rw [after]
      exact {
        before := by simp [sending]
        after := by simp [sending]
        flag := rfl
        main := .inr rfl
        connected := rfl
        clients := .refl _
        responses := fun _ member => .inl member
        work := fun _ => by rw [gone, before]; decide }
    | true =>
      have after : next s (.send true) = { s with
          serverThread := some .checking
          responses := s.responses ++ [(client, processCDPRequest [] message)] } := by
        simp [next, sending]
      rw [after]
      exact {
        before := by simp [sending]
        after := Option.some_ne_none _
        flag := rfl
        main := .inl rfl
        connected := rfl
        clients := by simp [State.clients, sending, ThreadPc.client]
        responses := fun response member => by
          rcases List.mem_append.mp member with old | new
          · exact .inl old
          · exact .inr (by rw [List.mem_singleton.mp new]; rfl)
        work := fun _ => by
          have checking : State.work { s with
              serverThread := some .checking
              responses := s.responses ++ [(client, processCDPRequest [] message)] } =
              ThreadPc.checking.work := State.work_of_alive alive rfl
          rw [before, checking]
          decide }

section Flag

/-- The flag after an action. -/
def started (on : Bool) : Action → Bool
  | .startCDPServer _ => true
  | .stopCDPServer => false
  | _ => on

theorem serverRunning_next (enabled : Enabled s a) :
    (next s a).serverRunning = started s.serverRunning a := by
  cases a with
  | startCDPServer portVal =>
    simp only [next, started]
    split_ifs with running
    · exact running
    · rfl
    · rfl
  | stopCDPServer =>
    simp only [next, started]
    split_ifs with idle
    · exact idle
    · rfl
    · rfl
  | join | exit | connect _ => rfl
  | socket _ | bind _ | listen _ | check | accept | acceptFails | recv _ | send _ =>
    exact (threadStep_next enabled trivial).flag

/-- The script has called `startCDPServer`, and not `stopCDPServer` since. -/
theorem serverRunning_eq_foldl (run : debugger.Run {} as s) :
    s.serverRunning = as.foldl started false := by
  refine run.history (P := fun as s => s.serverRunning = as.foldl started false) rfl ?_
  intro as s a _ enabled same
  rw [List.foldl_append, ← same]
  exact serverRunning_next enabled

/-- The thread is there as long as the flag is set, and while it is joined. -/
structure Joinable (s : State) : Prop where
  script : s.main = .script → (s.serverRunning = true ↔ s.serverThread ≠ none)
  joining : s.main = .joining → s.serverRunning = false ∧ s.serverThread ≠ none

theorem ThreadStep.joinable (step : ThreadStep s t) (joinable : Joinable s) : Joinable t := by
  constructor
  · intro script
    have before : s.main = .script := step.main.elim (· ▸ script) (by simp [script])
    rw [step.flag]
    exact (joinable.script before).trans (iff_of_true step.before step.after)
  · intro joining
    have before : s.main = .joining := step.main.elim (· ▸ joining) (by simp [joining])
    rw [step.flag]
    exact ⟨(joinable.joining before).1, step.after⟩

theorem joinable_next (enabled : Enabled s a) (joinable : Joinable s) : Joinable (next s a) := by
  cases a with
  | startCDPServer portVal =>
    have script : s.main = .script := enabled
    simp only [next]
    split_ifs with running there
    · exact ⟨joinable.script, joinable.joining⟩
    · exact absurd ((joinable.script script).mpr (Option.isSome_iff_ne_none.mp there)) running
    · exact ⟨fun _ => iff_of_true rfl (Option.some_ne_none _), fun joining => by simp_all⟩
  | stopCDPServer =>
    have script : s.main = .script := enabled
    simp only [next]
    split_ifs with idle none
    · exact ⟨joinable.script, joinable.joining⟩
    · exact ⟨fun _ => by simp [none], fun joining => by simp_all⟩
    · exact ⟨fun script => by simp_all, fun _ => ⟨rfl, none⟩⟩
  | join =>
    have idle := (joinable.joining enabled.1).1
    exact ⟨fun _ => by simp [next, idle], fun joining => by simp [next] at joining⟩
  | exit =>
    constructor
    · intro script
      simp only [next] at script
      split at script <;> simp at script
    · intro joining
      simp only [next] at joining
      split at joining <;> simp at joining
  | connect client => exact ⟨joinable.script, joinable.joining⟩
  | socket _ | bind _ | listen _ | check | accept | acceptFails | recv _ | send _ =>
    exact (threadStep_next enabled trivial).joinable joinable

theorem joinable (reachable : debugger.Reachable s) : Joinable s := by
  have start : Joinable debugger.initial := by constructor <;> simp [debugger]
  exact reachable.invariant start fun _ _ _ enabled holds => joinable_next enabled holds

end Flag

section Clients

/-- The clients are answered in the order of their connections, and all with the same text. -/
structure Served (s : State) : Prop where
  clients : s.clients.Sublist s.connected
  responses : ∀ response ∈ s.responses, response.2 = processCDPRequest [] []

theorem served_next (enabled : Enabled s a) (served : Served s) : Served (next s a) := by
  cases a with
  | startCDPServer portVal =>
    have script : s.main = .script := enabled
    simp only [next]
    split_ifs with running there
    · exact ⟨served.clients, served.responses⟩
    · exact ⟨served.clients, served.responses⟩
    · refine ⟨List.Sublist.trans ?_ served.clients, served.responses⟩
      exact (List.sublist_append_right _ _).append_left _
  | stopCDPServer =>
    simp only [next]
    split_ifs
    all_goals exact ⟨served.clients, served.responses⟩
  | join =>
    refine ⟨List.Sublist.trans ?_ served.clients, served.responses⟩
    exact (List.sublist_append_right _ _).append_left _
  | exit => exact ⟨served.clients, served.responses⟩
  | connect client =>
    refine ⟨?_, served.responses⟩
    have more := served.clients.append (List.Sublist.refl [client])
    simpa [State.clients, next] using more
  | socket _ | bind _ | listen _ | check | accept | acceptFails | recv _ | send _ =>
    have step := threadStep_next enabled trivial
    refine ⟨?_, fun response member => ?_⟩
    · rw [step.connected]
      exact step.clients.trans served.clients
    · exact (step.responses response member).elim (served.responses response) id

theorem served (reachable : debugger.Reachable s) : Served s := by
  have start : Served debugger.initial := ⟨List.Sublist.refl _, List.forall_mem_nil _⟩
  exact reachable.invariant start fun _ _ _ enabled holds => served_next enabled holds

end Clients

section Join

/-- What the thread does by itself, as long as `accept` does not fail. -/
def Action.Undisturbed (a : Action) : Prop := a.OfThread ∧ a ≠ .acceptFails

/-- The thread waits for a client. -/
def Blocked (s : State) : Prop := s.serverThread = some .accepting ∧ s.backlog = []

theorem blocked_of_run (run : debugger.Run s as t) (quiet : ∀ a ∈ as, a.Undisturbed)
    (blocked : Blocked s) : Blocked t := by
  refine run.preserves_of blocked quiet ?_
  rintro s a enabled ⟨own, succeeds⟩ ⟨accepting, empty⟩
  have enabled : Enabled s a := enabled
  cases a with
  | startCDPServer _ | stopCDPServer | join | exit | connect _ => exact own.elim
  | acceptFails => exact absurd rfl succeeds
  | socket _ | bind _ | listen _ | check => simp [Enabled, accepting] at enabled
  | accept => exact absurd empty enabled.2.2
  | recv _ => simp [Enabled, accepting] at enabled
  | send _ => simp [Enabled, accepting] at enabled

/-- Once the flag is cleared, the thread takes few steps. -/
theorem work_of_run (run : debugger.Run s as t) (own : ∀ a ∈ as, a.OfThread)
    (stopped : s.serverRunning = false) : as.length + t.work ≤ s.work := by
  induction run with
  | nil => simp
  | cons enabled _ ih =>
    obtain ⟨first, rest⟩ := List.forall_mem_cons.mp own
    have step := threadStep_next enabled first
    have less : (debugger.next _ _).work < _ := step.work stopped
    have later := ih rest (step.flag.trans stopped)
    rw [List.length_cons]
    omega

/-- The thread can come to its end by itself. -/
def Ends (s : State) : Prop :=
  ∃ as t, debugger.Run s as t ∧ (∀ a ∈ as, a.Undisturbed) ∧ debugger.Enabled t .join

theorem Ends.step (enabled : Enabled s a) (quiet : a.Undisturbed) (ends : Ends (next s a)) :
    Ends s := by
  obtain ⟨as, t, run, others, joins⟩ := ends
  exact ⟨a :: as, t, .cons enabled run, List.forall_mem_cons.mpr ⟨quiet, others⟩, joins⟩

theorem ends_of_ended (joining : s.main = .joining) (ended : s.serverThread = some .ended) :
    Ends s :=
  ⟨[], s, .nil s, List.forall_mem_nil _, joining, ended⟩

theorem ends_of_checking (joining : s.main = .joining) (stopped : s.serverRunning = false)
    (checking : s.serverThread = some .checking) : Ends s := by
  refine .step (a := .check) ⟨.inr joining, checking⟩ ⟨trivial, by simp⟩ ?_
  exact ends_of_ended (by simp [next, stopped, joining]) (by simp [next, stopped])

theorem ends_of_receiving {client : ℕ} (joining : s.main = .joining)
    (stopped : s.serverRunning = false) (receiving : s.serverThread = some (.receiving client)) :
    Ends s := by
  refine .step (a := .recv []) ⟨.inr joining, by simp, client, receiving⟩ ⟨trivial, by simp⟩ ?_
  apply ends_of_checking
  · simp [next, receiving, joining]
  · simp [next, receiving, stopped]
  · simp [next, receiving]

/-- A thread that does not wait for a client comes to its end. -/
theorem ends_of_not_blocked (joining : s.main = .joining) (stopped : s.serverRunning = false)
    (there : s.serverThread ≠ none) (free : ¬Blocked s) : Ends s := by
  obtain ⟨pc, at_pc⟩ := Option.ne_none_iff_exists'.mp there
  have alive : s.Alive := .inr joining
  cases pc with
  | creating =>
    exact .step (a := .socket false) ⟨alive, at_pc⟩ ⟨trivial, by simp⟩ (ends_of_ended joining rfl)
  | binding =>
    exact .step (a := .bind false) ⟨alive, at_pc⟩ ⟨trivial, by simp⟩ (ends_of_ended joining rfl)
  | listening =>
    exact .step (a := .listen false) ⟨alive, at_pc⟩ ⟨trivial, by simp⟩ (ends_of_ended joining rfl)
  | checking => exact ends_of_checking joining stopped at_pc
  | accepting =>
    have waiting : s.backlog ≠ [] := fun empty => free ⟨at_pc, empty⟩
    obtain ⟨client, backlog, split⟩ := List.exists_cons_of_ne_nil waiting
    refine .step (a := .accept) ⟨alive, at_pc, waiting⟩ ⟨trivial, by simp⟩ ?_
    refine @ends_of_receiving _ client ?_ ?_ ?_
    · simp [next, split, joining]
    · simp [next, split, stopped]
    · simp only [next, split]
  | receiving client => exact ends_of_receiving joining stopped at_pc
  | sending client message =>
    refine .step (a := .send true) ⟨alive, client, message, at_pc⟩ ⟨trivial, by simp⟩ ?_
    apply ends_of_checking
    · simp [next, at_pc, joining]
    · simp [next, at_pc, stopped]
    · simp [next, at_pc]
  | ended => exact ends_of_ended joining at_pc

theorem ends_iff (joining : s.main = .joining) (joinable : Joinable s) : Ends s ↔ ¬Blocked s := by
  obtain ⟨stopped, there⟩ := joinable.joining joining
  constructor
  · rintro ⟨as, t, run, quiet, joins⟩ blocked
    have still := (blocked_of_run run quiet blocked).1
    cases still.symm.trans joins.2
  · exact ends_of_not_blocked joining stopped there

end Join

/-- The debugging server over every run. Its clients are answered in order, at most once, and all
alike. The exit of the process is a crash if the server has been started and not stopped since,
also if it never got its port. A stop waits for one more client if the thread is in `accept` with
no one waiting; otherwise the thread ends by itself, in a few steps. -/
theorem debugger_run (run : debugger.Run {} as s) :
    s.clients.Sublist s.connected ∧
      (∀ response ∈ s.responses, response.2 = "\x7b\"id\":1,\"result\":\x7b\x7d\x7d".toList) ∧
      (s.main = .script →
        ((next s .exit).main = .terminated ↔ as.foldl started false = true)) ∧
      (s.main = .joining → (Ends s ↔ ¬Blocked s) ∧
        ∀ bs t, debugger.Run s bs t → (∀ a ∈ bs, a.OfThread) → bs.length ≤ 5) := by
  have reachable : debugger.Reachable s := ⟨as, run⟩
  refine ⟨(served reachable).clients, ?_, ?_, ?_⟩
  · intro response member
    rw [(served reachable).responses response member]
    decide
  · intro script
    rw [← serverRunning_eq_foldl run, (joinable reachable).script script]
    simp [next]
  · intro joining
    refine ⟨ends_iff joining (joinable reachable), fun bs t onwards own => ?_⟩
    have bound := work_of_run onwards own ((joinable reachable).joining joining).1
    have most := s.work_le
    omega

/-- A server whose port is taken, and one that is stopped before a client has come. -/
theorem debugger_run_without_client :
    (∃ s, debugger.Run {} [.startCDPServer none, .socket true, .bind false] s ∧
      (next s .exit).main = .terminated) ∧
    ∃ s, debugger.Run {} [.startCDPServer (some 9229), .socket true, .bind true, .listen true,
      .check, .stopCDPServer] s ∧ ¬Ends s := by
  obtain ⟨taken, run, script⟩ := debugger.exists_run_of_replay {}
    [.startCDPServer none, .socket true, .bind false] (·.main = .script) (by decide)
  obtain ⟨stopped, run', joining, blocked⟩ := debugger.exists_run_of_replay {}
    [.startCDPServer (some 9229), .socket true, .bind true, .listen true, .check, .stopCDPServer]
    (fun s => s.main = .joining ∧ s.serverThread = some .accepting ∧ s.backlog = []) (by decide)
  refine ⟨⟨taken, run, ((debugger_run run).2.2.1 script).mpr rfl⟩, stopped, run', fun ends => ?_⟩
  exact (((debugger_run run').2.2.2 joining).1.mp ends) blocked

end ProtoJS.Debugging
