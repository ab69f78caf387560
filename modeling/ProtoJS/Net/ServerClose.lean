import Mathlib
import ProtoJS.Strings.Extraction

/-! # Closing a net server

`close` of a server returns at once when the server has been closed before, and `listen` neither
looks at that latch nor opens it again. A server that listens after its first `close` stays open
for good: its descriptor, its flag and its accept thread survive every later `close`.
-/

namespace ProtoJS.Net

open Strings

/-- `NetServerData`, with the descriptors that `listen` has obtained and nobody has closed. -/
structure NetServerData where
  socketFd : ℤ := -1
  port : ℤ := 0
  host : Text := []
  listening : Bool := false
  closed : Bool := false
  joinable : Bool := false
  unclosed : List ℤ := []
deriving DecidableEq, Repr

/-- What the system calls that set up a server socket answer. -/
structure SocketAnswers where
  socket : Option ℕ
  hostValid : Bool
  bound : Bool
  boundPort : Option ℕ
  listens : Bool
deriving DecidableEq, Repr

def anyHost : Text := "0.0.0.0".toList

/-- Any host is bound to without a look at its name, and another one if `inet_pton` reads it. -/
def SocketAnswers.resolves (answers : SocketAnswers) (host : Text) : Bool :=
  host = anyHost || host = [] || answers.hostValid

/-- `getsockname` is asked for a port that the system chose. -/
def SocketAnswers.portFor (answers : SocketAnswers) (port : ℤ) : ℤ :=
  if port = 0 then (answers.boundPort.map Nat.cast).getD port else port

/-- The first argument of `listen`: a port, an options object or something else. -/
inductive ListenArgument
  | port (port : ℤ)
  | options (port : Option ℤ) (host : Option Text)
  | other
deriving DecidableEq, Repr

namespace ListenArgument

def portValue : ListenArgument → ℤ
  | .port number => number
  | .options number _ => number.getD 0
  | .other => 0

def hostValue : ListenArgument → Text
  | .options _ (some name) => name
  | _ => anyHost

end ListenArgument

namespace NetServerData

/-- `::close(fd)`. -/
def closeFd (data : NetServerData) (fd : ℤ) : NetServerData :=
  { data with unclosed := data.unclosed.erase fd }

/-- The task on the IO pool: the descriptor it returns, and the server. -/
def createSocket (data : NetServerData) (answers : SocketAnswers) (host : Text) :
    Option ℕ × NetServerData :=
  match answers.socket with
  | none => (none, data)
  | some sock =>
    let data := { data with unclosed := sock :: data.unclosed }
    if answers.resolves host = false then (none, data.closeFd sock)
    else if answers.bound = false then (none, data.closeFd sock)
    else
      let data := { data with port := answers.portFor data.port }
      if answers.listens = false then (none, data.closeFd sock) else (some sock, data)

def serverListen (data : NetServerData) (argument : ListenArgument) (answers : SocketAnswers) :
    Except String Unit × NetServerData :=
  if data.listening then (.error "Server already listening", data)
  else if argument.portValue < 0 ∨ 65535 < argument.portValue then
    (.error "Invalid port number", data)
  else
    let data := { data with port := argument.portValue, host := argument.hostValue }
    match data.createSocket answers argument.hostValue with
    | (none, data) => (.error "Failed to create server socket", data)
    | (some sock, data) =>
      (.ok (), { data with socketFd := sock, listening := true, joinable := true })

def closeSocket (data : NetServerData) : NetServerData :=
  if 0 ≤ data.socketFd then { data.closeFd data.socketFd with socketFd := -1 } else data

/-- The accept thread is joined. -/
def close (data : NetServerData) : NetServerData :=
  if data.closed then data
  else { closeSocket { data with closed := true, listening := false } with joinable := false }

end NetServerData

/-- A call on the server object. -/
inductive Call
  | listen (argument : ListenArgument) (answers : SocketAnswers)
  | close
deriving DecidableEq, Repr

def step (data : NetServerData) : Call → NetServerData
  | .listen argument answers => (data.serverListen argument answers).2
  | .close => data.close

/-- The server after a sequence of calls. -/
def after (calls : List Call) : NetServerData := calls.foldl step {}

/-- The server holds nothing. -/
structure Released (data : NetServerData) : Prop where
  socketFd : data.socketFd = -1
  listening : data.listening = false
  joinable : data.joinable = false
  unclosed : data.unclosed = []

/-- Every system call that matters for the host succeeds. -/
def SocketAnswers.grant (answers : SocketAnswers) (host : Text) : Bool :=
  answers.socket.isSome && answers.resolves host && answers.bound && answers.listens

/-- A `listen` with a port and with a socket. -/
def Call.opens : Call → Bool
  | .listen argument answers =>
    (0 ≤ argument.portValue && argument.portValue ≤ 65535) && answers.grant argument.hostValue
  | .close => false

variable {data : NetServerData} {call : Call} {calls : List Call}

@[simp] theorem after_append (calls more : List Call) :
    after (calls ++ more) = more.foldl step (after calls) := List.foldl_append

/-! ### What one call does -/

/-- Two servers that differ at most in the port and the host. -/
def Agree (data data' : NetServerData) : Prop :=
  { data with port := 0, host := [] } = { data' with port := 0, host := [] }

theorem agree_closeFd (data : NetServerData) (port : ℤ) (host : Text) (sock : ℤ) :
    Agree (({ data with port, host, unclosed := sock :: data.unclosed } : NetServerData).closeFd
      sock) data := by
  simp [Agree, NetServerData.closeFd]

theorem createSocket_cases {answers : SocketAnswers} {host : Text} :
    (data.createSocket answers host).1 = none ∧ answers.grant host = false ∧
        Agree (data.createSocket answers host).2 data ∨
      ∃ sock : ℕ, (data.createSocket answers host).1 = some sock ∧ answers.grant host = true ∧
        Agree (data.createSocket answers host).2
          { data with unclosed := sock :: data.unclosed } := by
  rw [NetServerData.createSocket, SocketAnswers.grant]
  cases answers.socket with
  | none => exact .inl ⟨rfl, rfl, rfl⟩
  | some sock =>
    cases answers.resolves host with
    | false => exact .inl ⟨rfl, rfl, agree_closeFd data _ _ _⟩
    | true =>
      cases answers.bound with
      | false => exact .inl ⟨rfl, rfl, agree_closeFd data _ _ _⟩
      | true =>
        cases answers.listens with
        | false => exact .inl ⟨rfl, rfl, agree_closeFd data _ _ _⟩
        | true => exact .inr ⟨sock, rfl, rfl, rfl⟩

/-- `listen` leaves the server alone but for the port and the host, or it opens a socket. -/
theorem listen_cases {argument : ListenArgument} {answers : SocketAnswers} :
    Agree (data.serverListen argument answers).2 data ∧
      (data.listening = true ∨ (Call.listen argument answers).opens = false) ∨
    data.listening = false ∧ (Call.listen argument answers).opens = true ∧
      ∃ sock : ℕ, Agree (data.serverListen argument answers).2
        { data with
          socketFd := sock, listening := true, joinable := true
          unclosed := sock :: data.unclosed } := by
  rw [NetServerData.serverListen, Call.opens]
  split
  · rename_i listening
    exact .inl ⟨rfl, .inl listening⟩
  · rename_i idle
    rw [Bool.not_eq_true] at idle
    split
    · rename_i invalid
      refine .inl ⟨rfl, .inr ?_⟩
      simp only [Bool.and_eq_false_iff, decide_eq_false_iff_not]
      omega
    · rename_i valid
      have inRange : (decide (0 ≤ argument.portValue) && decide (argument.portValue ≤ 65535)) =
          true := by
        simp only [Bool.and_eq_true, decide_eq_true_eq]
        omega
      rw [inRange, Bool.true_and]
      have created := @createSocket_cases
        { data with port := argument.portValue, host := argument.hostValue } answers
        argument.hostValue
      revert created
      dsimp only
      generalize NetServerData.createSocket _ answers argument.hostValue = result
      obtain ⟨outcome, server⟩ := result
      rintro (⟨rfl, refused, agree⟩ | ⟨sock, rfl, granted, agree⟩)
      · exact .inl ⟨agree, .inr refused⟩
      · refine .inr ⟨idle, granted, sock, ?_⟩
        simp only [Agree, NetServerData.mk.injEq] at agree ⊢
        simp [agree]

/-! ### What a run keeps -/

/-- A server that does not listen holds nothing, and one that does holds one descriptor. -/
structure Consistent (data : NetServerData) : Prop where
  idle : data.listening = false → Released data
  busy : data.listening = true → data.joinable = true ∧
    ∃ sock : ℕ, data.socketFd = sock ∧ data.unclosed = [(sock : ℤ)]

theorem Agree.consistent {data' : NetServerData} (agree : Agree data data')
    (consistent : Consistent data') : Consistent data := by
  simp only [Agree, NetServerData.mk.injEq] at agree
  obtain ⟨fd, _, _, listening, _, joinable, unclosed⟩ := agree
  refine ⟨?_, ?_⟩
  · intro idle
    have released := consistent.idle (listening ▸ idle)
    exact ⟨fd ▸ released.socketFd, idle, joinable ▸ released.joinable,
      unclosed ▸ released.unclosed⟩
  · intro busy
    rw [fd, joinable, unclosed]
    exact consistent.busy (listening ▸ busy)

theorem Consistent.released_iff (consistent : Consistent data) :
    Released data ↔ data.listening = false :=
  ⟨Released.listening, consistent.idle⟩

theorem close_of_closed (closed : data.closed = true) : data.close = data := if_pos closed

/-- The first `close` releases everything. -/
theorem released_close (consistent : Consistent data) (opened : data.closed = false) :
    Released data.close ∧ data.close.closed = true := by
  rw [NetServerData.close, if_neg (by simp [opened]), NetServerData.closeSocket]
  cases listening : data.listening with
  | false =>
    have released := consistent.idle listening
    rw [if_neg (by simp [released.socketFd])]
    exact ⟨⟨released.socketFd, rfl, rfl, released.unclosed⟩, rfl⟩
  | true =>
    obtain ⟨_, sock, fd, unclosed⟩ := consistent.busy listening
    rw [if_pos (by simp [fd])]
    exact ⟨⟨rfl, rfl, rfl, by simp [NetServerData.closeFd, fd, unclosed]⟩, rfl⟩

theorem Consistent.step (consistent : Consistent data) (call : Call) :
    Consistent (Net.step data call) := by
  cases call with
  | listen argument answers =>
    rcases @listen_cases data argument answers with ⟨agree, _⟩ | ⟨idle, _, sock, agree⟩
    · exact agree.consistent consistent
    · refine agree.consistent ⟨fun idle => absurd idle (by simp), fun _ => ⟨rfl, sock, rfl, ?_⟩⟩
      simp [(consistent.idle idle).unclosed]
  | close =>
    cases latched : data.closed with
    | false =>
      have released := (released_close consistent latched).1
      exact ⟨fun _ => released, fun busy => absurd (released.listening.symm.trans busy) (by simp)⟩
    | true =>
      rw [Net.step, close_of_closed latched]
      exact consistent

theorem consistent_after (calls : List Call) : Consistent (after calls) := by
  induction calls using List.reverseRecOn with
  | nil => exact ⟨fun _ => ⟨rfl, rfl, rfl, rfl⟩, fun busy => absurd busy (by decide)⟩
  | append_singleton calls call ih =>
    rw [after_append]
    exact ih.step call

theorem closed_close : data.close.closed = true := by
  rw [NetServerData.close, NetServerData.closeSocket]
  split
  · assumption
  · split <;> rfl

/-- A call leaves the latch where it stands, and a `close` sets it. -/
theorem step_closed : (step data call).closed = (data.closed || call = .close) := by
  cases call with
  | listen argument answers =>
    rcases @listen_cases data argument answers with ⟨agree, _⟩ | ⟨_, _, sock, agree⟩
    all_goals
      simp only [Agree, NetServerData.mk.injEq] at agree
      simp [step, agree]
  | close => simp [step, closed_close]

/-- A latched server listens as soon as it has opened a socket, and for good. -/
theorem step_listening (latched : data.closed = true) :
    (step data call).listening = (data.listening || call.opens) := by
  cases call with
  | listen argument answers =>
    rcases @listen_cases data argument answers with ⟨agree, kept⟩ | ⟨idle, opens, sock, agree⟩
    · simp only [Agree, NetServerData.mk.injEq] at agree
      rcases kept with busy | refused
      · simp [step, agree, busy]
      · simp [step, agree, refused]
    · simp only [Agree, NetServerData.mk.injEq] at agree
      simp [step, agree, opens]
  | close => simp [step, close_of_closed latched, Call.opens]

theorem listening_foldl (latched : data.closed = true) :
    (calls.foldl step data).listening = (data.listening || calls.any Call.opens) := by
  induction calls generalizing data with
  | nil => simp
  | cons call calls ih =>
    have still : (step data call).closed = true := by rw [step_closed, latched, Bool.true_or]
    rw [List.foldl_cons, ih still, step_listening latched, List.any_cons, Bool.or_assoc]

theorem closed_after : (after calls).closed = decide (.close ∈ calls) := by
  induction calls using List.reverseRecOn with
  | nil => rfl
  | append_singleton calls call ih =>
    rw [after_append, List.foldl_cons, List.foldl_nil, step_closed, ih]
    simp [eq_comm]

/-- The flag after a first `close` and more calls. -/
theorem listening_after_close {mid : List Call} (first : .close ∉ calls) :
    (after (calls ++ .close :: mid)).listening = mid.any Call.opens := by
  have opened : (after calls).closed = false := by simp [closed_after, first]
  obtain ⟨released, latched⟩ := released_close (consistent_after calls) opened
  rw [after_append, List.foldl_cons, step, listening_foldl latched, released.listening,
    Bool.false_or]

/-- No accept thread that could still be joined is replaced by another. -/
theorem not_joinable_of_idle (idle : (after calls).listening = false) :
    (after calls).joinable = false :=
  ((consistent_after calls).idle idle).joinable

/-! ### What `close` achieves -/

/-- Whenever `close` has returned, the server holds nothing. -/
def CloseReleases (calls : List Call) : Prop :=
  ∀ prior rest, calls = prior ++ .close :: rest → Released (after (prior ++ [.close]))

/-- No `listen` opens a socket between one `close` and a later one. -/
def NeverReopened (calls : List Call) : Prop :=
  ∀ prior mid rest, calls = prior ++ .close :: mid ++ .close :: rest →
    ∀ call ∈ mid, call.opens = false

theorem closeReleases_iff (calls : List Call) : CloseReleases calls ↔ NeverReopened calls := by
  constructor
  · intro releases prior mid rest shape call member
    have released := releases (prior ++ .close :: mid) rest shape
    have first : after (prior ++ [.close]) = (after prior).close := after_append ..
    have latched : (after prior).close.closed = true := closed_close
    have listening : (after (prior ++ .close :: (mid ++ [.close]))).listening = false := by
      simpa using released.listening
    rw [after_append, List.foldl_cons, step, listening_foldl latched, Bool.or_eq_false_iff,
      List.any_append, Bool.or_eq_false_iff, List.any_eq_false] at listening
    simpa using listening.2.1 call member
  · intro never prior rest shape
    rw [(consistent_after _).released_iff]
    rcases Decidable.em (.close ∈ prior) with again | first
    · obtain ⟨before, mid, rfl, first⟩ := List.eq_append_cons_of_mem again
      rw [List.append_assoc, List.cons_append, listening_after_close first, List.any_append]
      have shut : mid.any Call.opens = false := by
        rw [List.any_eq_false]
        intro call member
        simp [never before mid rest shape call member]
      rw [shut]
      rfl
    · rw [listening_after_close first]
      rfl

/-- The answers to a `listen` that gets descriptor 5. -/
def granting : SocketAnswers where
  socket := some 5
  hostValid := true
  bound := true
  boundPort := none
  listens := true

theorem not_closeReleases_second :
    ¬ CloseReleases [.listen (.port 8080) granting, .close, .listen (.port 8080) granting,
      .close] := by
  intro releases
  have released := releases [.listen (.port 8080) granting, .close, .listen (.port 8080) granting]
    [] rfl
  exact absurd released.listening (by decide)

end ProtoJS.Net
