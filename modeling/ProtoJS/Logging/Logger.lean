import ProtoJS.Bridge.TypeBridge
import ProtoJS.Machine.LockedLogs
import ProtoJS.Strings.Lines

/-! # The logger

Any number of threads log and set the level and the output. A call of `log` holds the mutex twice:
in `getLevel`, to see whether the line is to be written, and to write it. What happens in between can
change the level that the call has already seen, but never mixes two lines.
-/

namespace ProtoJS.Logger

open Bridge (encodeUtf8 encodeCharacter leadByte continuationByte)

/-- The characters of a `ProtoString`. -/
abbrev Text := List UInt32

/-- What `fromUTF8String` makes of a literal. -/
def literal (text : String) : Text := text.toList.map Char.val

inductive Level where
  | DEBUG
  | INFO
  | WARN
  | ERROR
deriving DecidableEq, Repr

def Level.value : Level → ℕ
  | .DEBUG => 0
  | .INFO => 1
  | .WARN => 2
  | .ERROR => 3

def levelToString : Level → Text
  | .DEBUG => literal "DEBUG"
  | .INFO => literal "INFO"
  | .WARN => literal "WARN"
  | .ERROR => literal "ERROR"

/-- The arguments of `log`. -/
structure Message where
  level : Level
  message : Text
  /-- The values of the context in the order of their keys, where they are strings. -/
  context : List (Option Text) := []
deriving DecidableEq, Repr

/-- No context and an empty one are treated alike. -/
def formatText (timestamp : Text) (m : Message) : Text :=
  literal "[" ++ timestamp ++ literal "] " ++ levelToString m.level ++ literal " " ++ m.message ++
    if m.context = [] then [] else literal " " ++ m.context.flatMap (·.getD [])

/-- A line of the output: who wrote it, when and where to. -/
structure Line (ι δ : Type*) where
  thread : ι
  message : Message
  timestamp : Text
  /-- `none` is `std::cout`. -/
  stream : Option δ
deriving DecidableEq, Repr

variable {ι δ : Type*}

def Line.text (line : Line ι δ) : List UInt8 :=
  encodeUtf8 (formatText line.timestamp line.message)

/-- What is sent to the stream: the text and the end of the line. -/
def Line.bytes (line : Line ι δ) : List UInt8 := line.text ++ [10]

inductive Request (δ : Type*) where
  | log (message : Message)
  | setLevel (level : Level)
  /-- With a null pointer the output is `std::cout` again. -/
  | setOutput (output : Option δ)
  | getLevel
deriving DecidableEq, Repr

/-- Where a thread stands. -/
inductive Pc (δ : Type*) where
  | idle
  /-- Before the mutex is locked for the first time. -/
  | calling (request : Request δ)
  /-- In `getLevel`, which `log` has called for a message. -/
  | reading (message : Option Message)
  /-- Between the two critical sections of `log`, with the level that `getLevel` returned. -/
  | checked (message : Message) (currentLevel : Level)
  | admitted (message : Message) (currentLevel : Level)
  | writing (message : Message) (currentLevel : Level)
  | storing (level : Level)
  | redirecting (output : Option δ)
deriving DecidableEq, Repr

def Pc.Holds : Pc δ → Prop
  | .reading _ | .writing _ _ | .storing _ | .redirecting _ => True
  | .idle | .calling _ | .checked _ _ | .admitted _ _ => False

structure State (ι δ : Type*) where
  pc : ι → Pc δ := fun _ => .idle
  /-- The thread that holds `logMutex`. -/
  holder : Option ι := none
  levelStorage : Option Level := none
  outputStream : Option δ := none
  logs : LockedLogs.State (Line ι δ) (Option δ) UInt8 := {}
  /-- The calls of `log` that have returned, with the level that `getLevel` had returned to them. -/
  returned : ι → List (Message × Level) := fun _ => []

/-- What `getLevel` returns: `INFO` as long as no level was set. -/
def State.level (s : State ι δ) : Level := s.levelStorage.getD .INFO

inductive Action (ι δ : Type*) where
  | call (i : ι) (request : Request δ)
  | lock (i : ι)
  /-- `getLevel` reads the level and unlocks the mutex. -/
  | read (i : ι)
  | check (i : ι)
  /-- `log` locks the mutex again and formats the line. -/
  | relock (i : ι) (timestamp : Text)
  /-- The stream takes some bytes of the line. -/
  | write (i : ι) (n : ℕ)
  | unlock (i : ι)
  | store (i : ι)
  | redirect (i : ι)
deriving DecidableEq, Repr

/-- `getLevel` answered with a level that lets the message pass. -/
def Passes (message : Message) (currentLevel : Level) : Prop :=
  currentLevel.value ≤ message.level.value

instance (message : Message) (currentLevel : Level) : Decidable (Passes message currentLevel) :=
  inferInstanceAs (Decidable (_ ≤ _))

def Enabled (s : State ι δ) : Action ι δ → Prop
  | .call i _ => s.pc i = .idle
  | .lock i => s.holder = none ∧ ∃ request, s.pc i = .calling request
  | .read i => ∃ message, s.pc i = .reading message
  | .check i => ∃ message current, s.pc i = .checked message current
  | .relock i _ => s.holder = none ∧ ∃ message current, s.pc i = .admitted message current
  | .write i n => (∃ message current, s.pc i = .writing message current) ∧
    LockedLogs.Enabled Line.bytes s.logs (.write n)
  | .unlock i => (∃ message current, s.pc i = .writing message current) ∧
    LockedLogs.Enabled Line.bytes s.logs .finish
  | .store i => ∃ level, s.pc i = .storing level
  | .redirect i => ∃ output, s.pc i = .redirecting output

section Decidability

instance (pc : Pc δ) : Decidable (∃ request, pc = .calling request) :=
  match pc with
  | .calling request => isTrue ⟨request, rfl⟩
  | .idle | .reading _ | .checked _ _ | .admitted _ _ | .writing _ _ | .storing _
  | .redirecting _ => isFalse (by simp)

instance (pc : Pc δ) : Decidable (∃ message, pc = .reading message) :=
  match pc with
  | .reading message => isTrue ⟨message, rfl⟩
  | .idle | .calling _ | .checked _ _ | .admitted _ _ | .writing _ _ | .storing _
  | .redirecting _ => isFalse (by simp)

instance (pc : Pc δ) : Decidable (∃ message current, pc = .checked message current) :=
  match pc with
  | .checked message current => isTrue ⟨message, current, rfl⟩
  | .idle | .calling _ | .reading _ | .admitted _ _ | .writing _ _ | .storing _
  | .redirecting _ => isFalse (by simp)

instance (pc : Pc δ) : Decidable (∃ message current, pc = .admitted message current) :=
  match pc with
  | .admitted message current => isTrue ⟨message, current, rfl⟩
  | .idle | .calling _ | .reading _ | .checked _ _ | .writing _ _ | .storing _
  | .redirecting _ => isFalse (by simp)

instance (pc : Pc δ) : Decidable (∃ message current, pc = .writing message current) :=
  match pc with
  | .writing message current => isTrue ⟨message, current, rfl⟩
  | .idle | .calling _ | .reading _ | .checked _ _ | .admitted _ _ | .storing _
  | .redirecting _ => isFalse (by simp)

instance (pc : Pc δ) : Decidable (∃ level, pc = .storing level) :=
  match pc with
  | .storing level => isTrue ⟨level, rfl⟩
  | .idle | .calling _ | .reading _ | .checked _ _ | .admitted _ _ | .writing _ _
  | .redirecting _ => isFalse (by simp)

instance (pc : Pc δ) : Decidable (∃ output, pc = .redirecting output) :=
  match pc with
  | .redirecting output => isTrue ⟨output, rfl⟩
  | .idle | .calling _ | .reading _ | .checked _ _ | .admitted _ _ | .writing _ _
  | .storing _ => isFalse (by simp)

instance [DecidableEq δ] (s : State ι δ) : DecidablePred (Enabled s)
  | .call i _ => inferInstanceAs (Decidable (s.pc i = .idle))
  | .lock _ | .relock _ _ => inferInstanceAs (Decidable (_ ∧ _))
  | .read i => inferInstanceAs (Decidable (∃ message, s.pc i = .reading message))
  | .check i => inferInstanceAs (Decidable (∃ message current, s.pc i = .checked message current))
  | .write _ _ | .unlock _ => inferInstanceAs (Decidable (_ ∧ _))
  | .store i => inferInstanceAs (Decidable (∃ level, s.pc i = .storing level))
  | .redirect i => inferInstanceAs (Decidable (∃ output, s.pc i = .redirecting output))

end Decidability

section Steps

variable [DecidableEq ι]

def State.goto (s : State ι δ) (i : ι) (pc : Pc δ) : State ι δ :=
  { s with pc := Function.update s.pc i pc }

/-- A call of `log` comes back. -/
def State.answer (s : State ι δ) (i : ι) (message : Message) (current : Level) : State ι δ :=
  { s with
    pc := Function.update s.pc i .idle
    returned := Function.update s.returned i (s.returned i ++ [(message, current)]) }

variable [DecidableEq δ]

def next (s : State ι δ) : Action ι δ → State ι δ
  | .call i request => s.goto i (.calling request)
  | .lock i => match s.pc i with
    | .calling (.log message) => { s.goto i (.reading (some message)) with holder := some i }
    | .calling (.setLevel level) => { s.goto i (.storing level) with holder := some i }
    | .calling (.setOutput output) => { s.goto i (.redirecting output) with holder := some i }
    | .calling .getLevel => { s.goto i (.reading none) with holder := some i }
    | _ => s
  | .read i => match s.pc i with
    | .reading (some message) => { s.goto i (.checked message s.level) with holder := none }
    | .reading none => { s.goto i .idle with holder := none }
    | _ => s
  | .check i => match s.pc i with
    | .checked message current =>
      if Passes message current then s.goto i (.admitted message current)
      else s.answer i message current
    | _ => s
  | .relock i timestamp => match s.pc i with
    | .admitted message current =>
      { s.goto i (.writing message current) with
        holder := some i
        logs := LockedLogs.next Line.stream Line.bytes s.logs
          (.start { thread := i, message, timestamp, stream := s.outputStream }) }
    | _ => s
  | .write _ n => { s with logs := LockedLogs.next Line.stream Line.bytes s.logs (.write n) }
  | .unlock i => match s.pc i with
    | .writing message current =>
      { s.answer i message current with
        holder := none
        logs := LockedLogs.next Line.stream Line.bytes s.logs .finish }
    | _ => s
  | .store i => match s.pc i with
    | .storing level => { s.goto i .idle with holder := none, levelStorage := some level }
    | _ => s
  | .redirect i => match s.pc i with
    | .redirecting output => { s.goto i .idle with holder := none, outputStream := output }
    | _ => s

/-- The logger at the start of the program. -/
def logger (ι δ : Type*) [DecidableEq ι] [DecidableEq δ] : Machine (State ι δ) (Action ι δ) where
  initial := {}
  Enabled := Enabled
  next := next

instance (s : State ι δ) (a : Action ι δ) : Decidable ((logger ι δ).Enabled s a) :=
  inferInstanceAs (Decidable (Enabled s a))

end Steps

variable [DecidableEq ι] [DecidableEq δ] {s t : State ι δ} {a : Action ι δ} {as : List (Action ι δ)}
  {i : ι}

section Exclusion

/-- The mutex is held exactly by the thread that is in a critical section. -/
def Exclusive (s : State ι δ) : Prop := ∀ i, s.holder = some i ↔ (s.pc i).Holds

omit [DecidableEq δ] in
theorem Exclusive.stay {pc : Pc δ} (exclusive : Exclusive s) (same : pc.Holds ↔ (s.pc i).Holds)
    (j : ι) : s.holder = some j ↔ (Function.update s.pc i pc j).Holds := by
  rw [exclusive j]
  rcases eq_or_ne j i with rfl | other
  · rw [Function.update_self, same]
  · rw [Function.update_of_ne other]

omit [DecidableEq δ] in
theorem Exclusive.take {pc : Pc δ} (exclusive : Exclusive s) (free : s.holder = none)
    (holds : pc.Holds) (j : ι) : some i = some j ↔ (Function.update s.pc i pc j).Holds := by
  rcases eq_or_ne j i with rfl | other
  · exact iff_of_true rfl (by rwa [Function.update_self])
  · rw [Function.update_of_ne other, ← exclusive j, free]
    exact iff_of_false (fun same => other (Option.some.inj same).symm) (by simp)

omit [DecidableEq δ] in
theorem Exclusive.give {pc : Pc δ} (exclusive : Exclusive s) (holds : (s.pc i).Holds)
    (leaves : ¬ pc.Holds) (j : ι) : (none : Option ι) = some j ↔
      (Function.update s.pc i pc j).Holds := by
  rcases eq_or_ne j i with rfl | other
  · exact iff_of_false (by simp) (by rwa [Function.update_self])
  · refine iff_of_false (by simp) fun too => other ?_
    rw [Function.update_of_ne other, ← exclusive j] at too
    exact Option.some.inj (too.symm.trans ((exclusive i).mpr holds))

theorem exclusive_next (enabled : Enabled s a) (exclusive : Exclusive s) :
    Exclusive (next s a) := by
  cases a with
  | call i request =>
    have idle : s.pc i = .idle := enabled
    exact exclusive.stay (by simp [idle, Pc.Holds])
  | lock i =>
    obtain ⟨free, request, calling⟩ := enabled
    simp only [next, calling]
    cases request with
    | log message => exact exclusive.take free trivial
    | setLevel level => exact exclusive.take free trivial
    | setOutput output => exact exclusive.take free trivial
    | getLevel => exact exclusive.take free trivial
  | read i =>
    obtain ⟨message, reading⟩ := enabled
    have holds : (s.pc i).Holds := by simp [reading, Pc.Holds]
    simp only [next, reading]
    cases message with
    | none => exact exclusive.give holds id
    | some message => exact exclusive.give holds id
  | check i =>
    obtain ⟨message, current, checked⟩ := enabled
    simp only [next, checked]
    split
    · exact exclusive.stay (by simp [checked, Pc.Holds])
    · exact exclusive.stay (by simp [checked, Pc.Holds])
  | relock i timestamp =>
    obtain ⟨free, message, current, admitted⟩ := enabled
    simp only [next, admitted]
    exact exclusive.take free trivial
  | write i n => exact exclusive
  | unlock i =>
    obtain ⟨⟨message, current, writing⟩, _⟩ := enabled
    simp only [next, writing]
    exact exclusive.give (by simp [writing, Pc.Holds]) id
  | store i =>
    obtain ⟨level, storing⟩ := enabled
    simp only [next, storing]
    exact exclusive.give (by simp [storing, Pc.Holds]) id
  | redirect i =>
    obtain ⟨output, redirecting⟩ := enabled
    simp only [next, redirecting]
    exact exclusive.give (by simp [redirecting, Pc.Holds]) id

theorem exclusive (reachable : (logger ι δ).Reachable s) : Exclusive s :=
  reachable.invariant (fun _ => iff_of_false (by simp [logger]) id)
    fun _ _ _ enabled holds => exclusive_next enabled holds

end Exclusion

section Lines

/-- The message of a call, if it was let pass. -/
def passing (call : Message × Level) : Option Message :=
  if Passes call.1 call.2 then some call.1 else none

/-- The line that is being written belongs to the thread in the critical section of `log`, and the
complete ones to the calls that have returned. -/
structure Written (s : State ι δ) : Prop where
  current : ∀ line done, s.logs.current = some (line, done) →
    ∃ current, s.pc line.thread = .writing line.message current
  writing : ∀ i message current, s.pc i = .writing message current →
    ∃ line done, s.logs.current = some (line, done) ∧ line.thread = i
  passes : ∀ i message current,
    s.pc i = .admitted message current ∨ s.pc i = .writing message current →
      Passes message current
  calls : ∀ i, (s.logs.entries.filter fun line => line.thread = i).map Line.message =
    (s.returned i).filterMap passing

omit [DecidableEq δ] in
theorem Written.free (written : Written s) (exclusive : Exclusive s) (free : s.holder = none) :
    s.logs.current = none := by
  cases found : s.logs.current with
  | none => rfl
  | some writing =>
    obtain ⟨current, at_work⟩ := written.current writing.1 writing.2 found
    have holds := (exclusive writing.1.thread).mpr (by simp [at_work, Pc.Holds])
    rw [free] at holds
    cases holds

omit [DecidableEq δ] in
/-- A thread moves outside the second critical section of `log`. -/
theorem Written.moved {pc : Pc δ} (written : Written s) (moves : t.pc = Function.update s.pc i pc)
    (before : ∀ message current, s.pc i ≠ .writing message current)
    (after : ∀ message current, pc ≠ .writing message current)
    (passes : ∀ message current, pc = .admitted message current → Passes message current)
    (logs : t.logs = s.logs)
    (calls : ∀ j, (t.returned j).filterMap passing = (s.returned j).filterMap passing) :
    Written t := by
  have elsewhere {j : ι} {message : Message} {current : Level} :
      t.pc j = .writing message current ↔ s.pc j = .writing message current := by
    rw [moves]
    rcases eq_or_ne j i with rfl | other
    · rw [Function.update_self]
      exact iff_of_false (after _ _) (before _ _)
    · rw [Function.update_of_ne other]
  refine ⟨fun line done found => ?_, fun j message current found => ?_,
    fun j message current found => ?_, fun j => ?_⟩
  · rw [logs] at found
    obtain ⟨current, at_work⟩ := written.current line done found
    exact ⟨current, elsewhere.mpr at_work⟩
  · rw [logs]
    exact written.writing j message current (elsewhere.mp found)
  · rcases found with admitted | writing
    · rw [moves] at admitted
      rcases eq_or_ne j i with rfl | other
      · rw [Function.update_self] at admitted
        exact passes message current admitted
      · rw [Function.update_of_ne other] at admitted
        exact written.passes j message current (.inl admitted)
    · exact written.passes j message current (.inr (elsewhere.mp writing))
  · rw [logs, calls]
    exact written.calls j

theorem written_next (enabled : Enabled s a) (exclusive : Exclusive s) (written : Written s) :
    Written (next s a) := by
  cases a with
  | call i request =>
    have idle : s.pc i = .idle := enabled
    exact written.moved rfl (by simp [idle]) (by simp) (by simp) rfl fun _ => rfl
  | lock i =>
    obtain ⟨free, request, calling⟩ := enabled
    simp only [next, calling]
    cases request with
    | log message => exact written.moved rfl (by simp [calling]) (by simp) (by simp) rfl fun _ => rfl
    | setLevel level =>
      exact written.moved rfl (by simp [calling]) (by simp) (by simp) rfl fun _ => rfl
    | setOutput output =>
      exact written.moved rfl (by simp [calling]) (by simp) (by simp) rfl fun _ => rfl
    | getLevel => exact written.moved rfl (by simp [calling]) (by simp) (by simp) rfl fun _ => rfl
  | read i =>
    obtain ⟨message, reading⟩ := enabled
    simp only [next, reading]
    cases message with
    | none => exact written.moved rfl (by simp [reading]) (by simp) (by simp) rfl fun _ => rfl
    | some message =>
      exact written.moved rfl (by simp [reading]) (by simp) (by simp) rfl fun _ => rfl
  | check i =>
    obtain ⟨message, current, checked⟩ := enabled
    simp only [next, checked]
    split
    · next passes =>
      refine written.moved rfl (by simp [checked]) (by simp) ?_ rfl fun _ => rfl
      intro other level same
      cases same
      exact passes
    · next stops =>
      refine written.moved rfl (by simp [checked]) (by simp) (by simp) rfl fun j => ?_
      rcases eq_or_ne j i with rfl | other
      · simp [State.answer, List.filterMap_append, passing, stops]
      · simp [State.answer, Function.update_of_ne other]
  | relock i timestamp =>
    obtain ⟨free, message, current, admitted⟩ := enabled
    have passes := written.passes i message current (.inl admitted)
    have still := written.free exclusive free
    simp only [next, admitted, LockedLogs.next]
    refine ⟨fun line done same => ?_, fun j other level found => ?_, fun j other level found => ?_,
      written.calls⟩
    · cases same
      exact ⟨current, Function.update_self ..⟩
    · rcases eq_or_ne j i with rfl | different
      · exact ⟨_, _, rfl, rfl⟩
      · change Function.update s.pc i _ j = _ at found
        rw [Function.update_of_ne different] at found
        obtain ⟨line, done, present, _⟩ := written.writing j other level found
        rw [still] at present
        cases present
    · change Function.update s.pc i _ j = _ ∨ Function.update s.pc i _ j = _ at found
      rcases eq_or_ne j i with rfl | different
      · rw [Function.update_self] at found
        rcases found with found | found
        · cases found
        · cases found
          exact passes
      · rw [Function.update_of_ne different] at found
        exact written.passes j other level found
  | write i n =>
    obtain ⟨_, line, done, present, _⟩ := enabled
    simp only [next, LockedLogs.next, present]
    refine ⟨fun other more same => ?_, fun j message current found => ?_, written.passes,
      written.calls⟩
    · cases same
      exact written.current line done present
    · obtain ⟨other, more, same, own⟩ := written.writing j message current found
      cases present.symm.trans same
      exact ⟨line, _, rfl, own⟩
  | unlock i =>
    obtain ⟨⟨message, current, writing⟩, line, present⟩ := enabled
    have passes := written.passes i message current (.inr writing)
    obtain ⟨other, done, same, own⟩ := written.writing i message current writing
    cases present.symm.trans same
    have content : line.message = message := by
      obtain ⟨level, at_work⟩ := written.current line _ present
      rw [own, writing] at at_work
      cases at_work
      rfl
    have alone {j : ι} {message : Message} {current : Level} (different : j ≠ i)
        (too : s.pc j = .writing message current) : False := by
      have first := (exclusive i).mpr (by simp [writing, Pc.Holds])
      have second := (exclusive j).mpr (by simp [too, Pc.Holds])
      exact different (Option.some.inj (second.symm.trans first))
    simp only [next, writing, LockedLogs.next, present]
    refine ⟨fun _ _ found => ?_, fun j other level found => ?_, fun j other level found => ?_,
      fun j => ?_⟩
    · cases found
    · change Function.update s.pc i _ j = _ at found
      rcases eq_or_ne j i with rfl | different
      · rw [Function.update_self] at found
        cases found
      · rw [Function.update_of_ne different] at found
        exact (alone different found).elim
    · change Function.update s.pc i _ j = _ ∨ Function.update s.pc i _ j = _ at found
      rcases eq_or_ne j i with rfl | different
      · rw [Function.update_self] at found
        rcases found with found | found <;> cases found
      · rw [Function.update_of_ne different] at found
        exact written.passes j other level found
    · have before := written.calls j
      change _ = (Function.update s.returned i (s.returned i ++ [(message, current)]) j).filterMap
        passing
      rw [List.filter_append, List.map_append, before]
      rcases eq_or_ne j i with rfl | different
      · simp [List.filterMap_append, passing, passes, own, content]
      · simp [Function.update_of_ne different, own, different.symm]
  | store i =>
    obtain ⟨level, storing⟩ := enabled
    simp only [next, storing]
    exact written.moved rfl (by simp [storing]) (by simp) (by simp) rfl fun _ => rfl
  | redirect i =>
    obtain ⟨output, redirecting⟩ := enabled
    simp only [next, redirecting]
    exact written.moved rfl (by simp [redirecting]) (by simp) (by simp) rfl fun _ => rfl

theorem written (reachable : (logger ι δ).Reachable s) : Written s := by
  have start : Written (logger ι δ).initial := by constructor <;> simp [logger]
  exact reachable.invariant start fun _ _ before enabled holds =>
    written_next enabled (exclusive before) holds

/-- The logs are those of a lock that serves one line at a time. -/
theorem logs_reachable (reachable : (logger ι δ).Reachable s) :
    (LockedLogs.machine Line.stream Line.bytes).Reachable s.logs := by
  refine reachable.invariant
    (P := fun s => (LockedLogs.machine Line.stream Line.bytes).Reachable s.logs) .initial
    fun s a before enabled holds => ?_
  cases a with
  | relock i timestamp =>
    obtain ⟨free, message, current, admitted⟩ := enabled
    simp only [logger, next, admitted]
    exact holds.next (a := LockedLogs.Action.start _) ((written before).free (exclusive before) free)
  | write i n => exact holds.next enabled.2
  | unlock i =>
    obtain ⟨⟨message, current, writing⟩, finishes⟩ := enabled
    simp only [logger, next, writing]
    exact holds.next (a := LockedLogs.Action.finish) finishes
  | call i request => exact holds
  | lock i =>
    obtain ⟨_, request, calling⟩ := enabled
    simp only [logger, next, calling]
    cases request <;> exact holds
  | read i =>
    obtain ⟨message, reading⟩ := enabled
    simp only [logger, next, reading]
    cases message <;> exact holds
  | check i =>
    obtain ⟨message, current, checked⟩ := enabled
    simp only [logger, next, checked]
    split <;> exact holds
  | store i =>
    obtain ⟨level, storing⟩ := enabled
    simp only [logger, next, storing]
    exact holds
  | redirect i =>
    obtain ⟨output, redirecting⟩ := enabled
    simp only [logger, next, redirecting]
    exact holds

/-- A byte with a mark in its highest bit is no newline. -/
theorem toUInt8_or_ne_newline {mark rest : UInt32} (high : mark.toNat.testBit 7 = true) :
    (mark ||| rest).toUInt8 ≠ 10 := by
  intro same
  have bit : (mark ||| rest).toUInt8.toNat.testBit 7 = true := by
    rw [UInt32.toNat_toUInt8, UInt32.toNat_or, Nat.testBit_mod_two_pow, Nat.testBit_or, high]
    rfl
  rw [same] at bit
  cases bit

theorem newline_mem_encodeCharacter (c : UInt32) : (10 : UInt8) ∈ encodeCharacter c ↔ c = 10 := by
  have two : ¬ (10 : UInt8) = leadByte 0xC0 c 6 := (toUInt8_or_ne_newline (by decide)).symm
  have three : ¬ (10 : UInt8) = leadByte 0xE0 c 12 := (toUInt8_or_ne_newline (by decide)).symm
  have four : ¬ (10 : UInt8) = leadByte 0xF0 c 18 := (toUInt8_or_ne_newline (by decide)).symm
  have continuation (shift : UInt32) : ¬ (10 : UInt8) = continuationByte c shift :=
    (toUInt8_or_ne_newline (by decide)).symm
  unfold encodeCharacter
  split
  · next small =>
    have bound : c.toNat < 128 := small
    rw [List.mem_singleton, ← UInt8.toNat_inj, UInt32.toNat_toUInt8, Nat.mod_eq_of_lt (by omega),
      ← UInt32.toNat_inj]
    exact eq_comm
  · next large =>
    refine iff_of_false ?_ fun same => large (same ▸ by decide)
    split_ifs <;> simp [two, three, four, continuation]

/-- Only the end of a line is a newline, unless the text has one. -/
theorem newline_mem_encodeUtf8 (text : Text) : (10 : UInt8) ∈ encodeUtf8 text ↔ 10 ∈ text := by
  simp only [encodeUtf8, List.mem_flatMap, newline_mem_encodeCharacter, exists_eq_right]

/-- The lines of a stream that are complete. -/
def State.linesOf (s : State ι δ) (stream : Option δ) : List (Line ι δ) :=
  s.logs.entriesOf Line.stream stream

/-- In every interleaving, what a stream has received is whole lines, in the order in which their
threads held the mutex, and a part of one more line while its thread holds it; of every thread,
these are the messages that were let pass, in the order of the calls; and a reader who takes the
stream apart at the newlines gets back the lines exactly if no text has a newline. -/
theorem streams_hold_whole_lines (reachable : (logger ι δ).Reachable s) :
    (∀ stream, s.logs.contents stream = (s.linesOf stream).flatMap Line.bytes ++
        s.logs.unfinished Line.stream Line.bytes stream) ∧
      (∀ i, (s.logs.entries.filter fun line => line.thread = i).map Line.message =
        (s.returned i).filterMap passing) ∧
      (s.holder = none → ∀ stream,
        Strings.lines 10 (s.logs.contents stream) = (s.linesOf stream).map Line.text ↔
          ∀ line ∈ s.linesOf stream, 10 ∉ formatText line.timestamp line.message) := by
  have ledger := LockedLogs.ledger (logs_reachable reachable)
  refine ⟨ledger.accounts, (written reachable).calls, fun free stream => ?_⟩
  have whole := ledger.accounts stream
  have still := (written reachable).free (exclusive reachable) free
  simp only [LockedLogs.State.unfinished, still, List.append_nil] at whole
  rw [whole]
  change Strings.lines 10 ((s.linesOf stream).flatMap Line.bytes) = _ ↔ _
  generalize s.linesOf stream = lines
  constructor
  · intro same line member newline
    have listed : line.text ∈ Strings.lines 10 (lines.flatMap Line.bytes) :=
      same ▸ List.mem_map_of_mem member
    exact Strings.notMem_of_mem_lines listed ((newline_mem_encodeUtf8 _).mpr newline)
  · intro clean
    induction lines with
    | nil => simp
    | cons line lines ih =>
      rw [List.forall_mem_cons] at clean
      have own : (10 : UInt8) ∉ line.text := fun newline =>
        clean.1 ((newline_mem_encodeUtf8 _).mp newline)
      rw [List.flatMap_cons, List.map_cons, Line.bytes, List.append_assoc, List.singleton_append,
        Strings.lines_append own, ih clean.2]

/-- One thread writes its line in two parts, and the other one has called in between. -/
def twoLines (i j : ι) : List (Action ι Empty) :=
  [.call i (.log ⟨.WARN, literal "a", []⟩), .lock i, .read i, .check i, .relock i (literal "t"),
    .write i 3, .call j (.log ⟨.ERROR, literal "b", [none, some (literal "c")]⟩), .write i 8,
    .unlock i, .lock j, .read j, .check j, .relock j (literal "u"), .write j 14, .unlock j]

theorem streams_hold_whole_lines_two : ∃ s, (logger (Fin 2) Empty).Run {} (twoLines 0 1) s ∧
    Strings.lines 10 (s.logs.contents none) =
      [encodeUtf8 (literal "[t] WARN a"), encodeUtf8 (literal "[u] ERROR b c")] := by
  obtain ⟨s, run, free, written⟩ := (logger (Fin 2) Empty).exists_run_of_replay {} (twoLines 0 1)
    (fun s => s.holder = none ∧ s.linesOf none =
      [⟨0, ⟨.WARN, literal "a", []⟩, literal "t", none⟩,
        ⟨1, ⟨.ERROR, literal "b", [none, some (literal "c")]⟩, literal "u", none⟩])
    (by decide +kernel)
  refine ⟨s, run, (((streams_hold_whole_lines ⟨_, run⟩).2.2 free none).mpr ?_).trans ?_⟩
  · rw [written]
    decide +kernel
  · rw [written]
    decide +kernel

end Lines

section Levels

variable {bound : Level}

/-- A call on its way to a line below a level, past the point where the level matters. -/
def Pc.Passed (bound : Level) : Pc δ → Prop
  | .checked message current => message.level.value < bound.value ∧ Passes message current
  | .admitted message _ | .writing message _ => message.level.value < bound.value
  | .idle | .calling _ | .reading _ | .storing _ | .redirecting _ => False

instance (pc : Pc δ) : Decidable (pc.Passed bound) := by
  cases pc <;> unfold Pc.Passed <;> infer_instance

/-- A thread is about to lower the level. -/
def Pc.Lowers (bound : Level) : Pc δ → Prop
  | .calling (.setLevel level) | .storing level => level.value < bound.value
  | _ => False

def Action.Lowers (bound : Level) : Action ι δ → Prop
  | .call _ (.setLevel level) => level.value < bound.value
  | _ => False

/-- The lines of a thread below a level. -/
def linesBelow (bound : Level) (i : ι) (lines : List (Line ι δ)) : List (Line ι δ) :=
  lines.filter fun line => line.thread = i ∧ line.message.level.value < bound.value

/-- The level is raised and stays so, and the late lines of a thread are among those that it was
about to write. -/
structure Raised (bound : Level) (written : List (Line ι δ)) (i : ι) (late : ℕ)
    (s : State ι δ) : Prop where
  level : bound.value ≤ s.level.value
  kept : ∀ j, ¬ (s.pc j).Lowers bound
  lines : ∃ more, s.logs.entries = written ++ more ∧
    (linesBelow bound i more).length + (if (s.pc i).Passed bound then 1 else 0) ≤ late

omit [DecidableEq δ] in
theorem Raised.moved {lines : List (Line ι δ)} {late : ℕ} {j : ι} {pc : Pc δ}
    (raised : Raised bound lines i late s) (moves : t.pc = Function.update s.pc j pc)
    (entries : t.logs.entries = s.logs.entries) (level : bound.value ≤ t.level.value)
    (passed : pc.Passed bound → (s.pc j).Passed bound) (quiet : ¬ pc.Lowers bound) :
    Raised bound lines i late t := by
  obtain ⟨_, kept, more, same, counted⟩ := raised
  refine ⟨level, fun k => ?_, more, entries.trans same, le_trans ?_ counted⟩
  · rw [moves]
    rcases eq_or_ne k j with rfl | other
    · rwa [Function.update_self]
    · rw [Function.update_of_ne other]
      exact kept k
  · rw [moves]
    rcases eq_or_ne i j with rfl | other
    · rw [Function.update_self]
      by_cases now : pc.Passed bound
      · rw [if_pos now, if_pos (passed now)]
      · rw [if_neg now]
        omega
    · rw [Function.update_of_ne other]

theorem raised_next {lines : List (Line ι δ)} {late : ℕ} (enabled : Enabled s a)
    (written : Written s) (quiet : ¬ a.Lowers bound) (raised : Raised bound lines i late s) :
    Raised bound lines i late (next s a) := by
  have level := raised.level
  cases a with
  | call j request =>
    refine raised.moved rfl rfl level False.elim fun lowers => quiet ?_
    cases request <;> exact lowers
  | lock j =>
    obtain ⟨free, request, calling⟩ := enabled
    have kept := raised.kept j
    rw [calling] at kept
    simp only [next, calling]
    cases request with
    | log message => exact raised.moved rfl rfl level False.elim id
    | setLevel lower => exact raised.moved rfl rfl level False.elim kept
    | setOutput output => exact raised.moved rfl rfl level False.elim id
    | getLevel => exact raised.moved rfl rfl level False.elim id
  | read j =>
    obtain ⟨message, reading⟩ := enabled
    simp only [next, reading]
    cases message with
    | none => exact raised.moved rfl rfl level False.elim id
    | some message =>
      refine raised.moved rfl rfl level (fun passed => ?_) id
      -- the level that is in force now lets no message below it pass
      obtain ⟨below, passes⟩ := passed
      have reaches : s.level.value ≤ message.level.value := passes
      omega
  | check j =>
    obtain ⟨message, current, checked⟩ := enabled
    simp only [next, checked]
    split
    · next passes =>
      refine raised.moved rfl rfl level (fun below => ?_) id
      rw [checked]
      exact ⟨below, passes⟩
    · exact raised.moved rfl rfl level False.elim id
  | relock j timestamp =>
    obtain ⟨free, message, current, admitted⟩ := enabled
    simp only [next, admitted]
    refine raised.moved rfl rfl level (fun below => ?_) id
    rw [admitted]
    exact below
  | write j n =>
    obtain ⟨_, line, done, present, _⟩ := enabled
    simp only [next, LockedLogs.next, present]
    exact ⟨level, raised.kept, raised.lines⟩
  | unlock j =>
    obtain ⟨⟨message, current, writing⟩, line, present⟩ := enabled
    obtain ⟨other, done, same, own⟩ := written.writing j message current writing
    cases present.symm.trans same
    obtain ⟨read, at_work⟩ := written.current line _ present
    rw [own, writing] at at_work
    cases at_work
    obtain ⟨_, kept, more, entries, counted⟩ := raised
    simp only [next, writing, LockedLogs.next, present]
    refine ⟨level, fun k => ?_, more ++ [line], ?_, le_trans ?_ counted⟩
    · change ¬ (Function.update s.pc j .idle k).Lowers bound
      rcases eq_or_ne k j with rfl | different
      · rw [Function.update_self]
        exact id
      · rw [Function.update_of_ne different]
        exact kept k
    · change s.logs.entries ++ [line] = _
      rw [entries, List.append_assoc]
    · change _ + (if (Function.update s.pc j .idle i).Passed bound then 1 else 0) ≤ _
      rw [linesBelow, List.filter_append, List.length_append]
      rcases eq_or_ne i j with rfl | different
      · rw [Function.update_self, if_neg (show ¬ (Pc.idle : Pc δ).Passed bound from id), writing]
        by_cases below : line.message.level.value < bound.value
        · simp [linesBelow, own, below, Pc.Passed]
        · simp [linesBelow, below, Pc.Passed]
      · rw [Function.update_of_ne different]
        simp [linesBelow, own, different.symm]
  | store j =>
    obtain ⟨new, storing⟩ := enabled
    have kept := raised.kept j
    rw [storing] at kept
    simp only [next, storing]
    exact raised.moved rfl rfl (not_lt.mp kept) False.elim id
  | redirect j =>
    obtain ⟨output, redirecting⟩ := enabled
    simp only [next, redirecting]
    exact raised.moved rfl rfl level False.elim id

/-- Once the level has been raised and nobody lowers it again, each thread writes at most one more
line below it, and only if its call had seen the old level. -/
theorem at_most_one_late_line (reachable : (logger ι δ).Reachable s)
    (run : (logger ι δ).Run s as t) (level : bound.value ≤ s.level.value)
    (kept : ∀ j, ¬ (s.pc j).Lowers bound) (quiet : ∀ a ∈ as, ¬ a.Lowers bound) (i : ι) :
    ∃ more, t.logs.entries = s.logs.entries ++ more ∧
      (linesBelow bound i more).length ≤ if (s.pc i).Passed bound then 1 else 0 := by
  have start : Raised bound s.logs.entries i (if (s.pc i).Passed bound then 1 else 0) s :=
    ⟨level, kept, [], (List.append_nil _).symm, by simp [linesBelow]⟩
  have both := run.preserves_of
    (P := fun t => (logger ι δ).Reachable t ∧ Raised bound s.logs.entries i _ t)
    ⟨reachable, start⟩ quiet fun t a enabled quiet before =>
      ⟨before.1.next enabled, raised_next enabled (written before.1) quiet before.2⟩
  obtain ⟨more, same, counted⟩ := both.2.lines
  exact ⟨more, same, by omega⟩

instance (pc : Pc δ) : Decidable (pc.Lowers bound) := by
  unfold Pc.Lowers
  split <;> infer_instance

/-- The level is raised between the two critical sections of a call. -/
theorem at_most_one_late_line_raised : ∃ s t, (logger (Fin 2) Empty).Run {}
      [.call 0 (.log ⟨.INFO, [], []⟩), .lock 0, .read 0, .call 1 (.setLevel .ERROR), .lock 1,
        .store 1] s ∧
    (logger (Fin 2) Empty).Run s
      [.check 0, .relock 0 [], .write 0 9, .unlock 0] t ∧
    s.level = .ERROR ∧ ∃ more, t.logs.entries = s.logs.entries ++ more ∧
      (linesBelow .ERROR 0 more).length ≤ 1 := by
  obtain ⟨s, run, ⟨level, quiet, passed⟩, rest⟩ := (logger (Fin 2) Empty).exists_run_of_replay {}
    [.call 0 (.log ⟨.INFO, [], []⟩), .lock 0, .read 0, .call 1 (.setLevel .ERROR), .lock 1,
      .store 1]
    (fun s => (s.level = .ERROR ∧ (∀ j, ¬ (s.pc j).Lowers .ERROR) ∧ (s.pc 0).Passed .ERROR) ∧
      (((logger (Fin 2) Empty).replay s [.check 0, .relock 0 [], .write 0 9, .unlock 0]).any
        fun t => decide (t.holder = none)) = true)
    (by decide +kernel)
  obtain ⟨t, later, _⟩ := Machine.exists_run_of_replay s _ _ rest
  refine ⟨s, t, run, later, level, ?_⟩
  obtain ⟨more, entries, counted⟩ := @at_most_one_late_line _ _ _ _ _ _ _ .ERROR ⟨_, run⟩ later
    (by rw [level]) quiet (by simp [Action.Lowers]) 0
  rw [if_pos passed] at counted
  exact ⟨more, entries, counted⟩

end Levels

end ProtoJS.Logger
