import ProtoJS.Machine.Run

/-! # Logs that are written under one lock

Writers append entries to several logs, piece by piece, and each holds one lock from the first
piece of its entry to the last. The ledger says that no two entries are mixed: a log is the entries
that were addressed to it, whole and in the order in which the lock was held, and then what has been
written of the entry whose writer holds the lock.
-/

namespace ProtoJS.LockedLogs

variable {ε δ β : Type*}

structure State (ε δ β : Type*) where
  contents : δ → List β := fun _ => []
  /-- The entries that are complete. -/
  entries : List ε := []
  /-- The entry that is being written, and how much of it has been. -/
  current : Option (ε × ℕ) := none

inductive Action (ε : Type*) where
  | start (entry : ε)
  | write (n : ℕ)
  | finish

variable (log : ε → δ) (content : ε → List β)

def Enabled (s : State ε δ β) : Action ε → Prop
  | .start _ => s.current = none
  | .write n => ∃ entry done, s.current = some (entry, done) ∧ done + n ≤ (content entry).length
  | .finish => ∃ entry, s.current = some (entry, (content entry).length)

instance (s : State ε δ β) : DecidablePred (Enabled content s)
  | .start _ => decidable_of_iff (s.current.isNone = true) Option.isNone_iff_eq_none
  | .write n => match found : s.current with
    | none => isFalse (by simp [Enabled, found])
    | some (entry, done) =>
      decidable_of_iff (done + n ≤ (content entry).length) (by simp [Enabled, found])
  | .finish => match found : s.current with
    | none => isFalse (by simp [Enabled, found])
    | some (entry, done) =>
      decidable_of_iff (done = (content entry).length) (by simp [Enabled, found])

variable [DecidableEq δ]

def next (s : State ε δ β) : Action ε → State ε δ β
  | .start entry => { s with current := some (entry, 0) }
  | .write n => match s.current with
    | some (entry, done) =>
      { s with
        contents := Function.update s.contents (log entry)
          (s.contents (log entry) ++ ((content entry).drop done).take n)
        current := some (entry, done + n) }
    | none => s
  | .finish => match s.current with
    | some (entry, _) => { s with entries := s.entries ++ [entry], current := none }
    | none => s

/-- Empty logs and a free lock. -/
def machine : Machine (State ε δ β) (Action ε) where
  initial := {}
  Enabled := Enabled content
  next := next log content

/-- The complete entries of a log. -/
def State.entriesOf (s : State ε δ β) (d : δ) : List ε := s.entries.filter fun e => log e = d

/-- What has been written to a log of the entry that is being written. -/
def State.unfinished (s : State ε δ β) (d : δ) : List β :=
  match s.current with
  | some (entry, done) => if log entry = d then (content entry).take done else []
  | none => []

structure Ledger (s : State ε δ β) : Prop where
  accounts : ∀ d, s.contents d = (s.entriesOf log d).flatMap content ++ s.unfinished log content d
  bound : ∀ entry done, s.current = some (entry, done) → done ≤ (content entry).length

variable {log content} {s : State ε δ β} {a : Action ε}

private theorem ledger_next (enabled : Enabled content s a) (ledger : Ledger log content s) :
    Ledger log content (next log content s a) := by
  obtain ⟨accounts, bound⟩ := ledger
  cases a with
  | start entry =>
    have free : s.current = none := enabled
    refine ⟨fun d => ?_, fun other done same => ?_⟩
    · have before := accounts d
      simp only [State.unfinished, free, List.append_nil] at before
      simpa [next, State.unfinished, State.entriesOf] using before
    · cases same
      exact Nat.zero_le _
  | write n =>
    obtain ⟨entry, done, holds, fits⟩ := enabled
    simp only [next, holds]
    refine ⟨fun d => ?_, fun other more same => ?_⟩
    · have before := accounts d
      simp only [State.unfinished, holds] at before
      simp only [State.unfinished, State.entriesOf]
      by_cases own : log entry = d
      · subst own
        rw [if_pos rfl] at before
        rw [if_pos rfl, Function.update_self, before, List.append_assoc, ← List.take_add]
        rfl
      · rw [if_neg own] at before
        rw [if_neg own, Function.update_of_ne (Ne.symm own), before]
        rfl
    · cases same
      exact fits
  | finish =>
    obtain ⟨entry, holds⟩ := enabled
    simp only [next, holds]
    refine ⟨fun d => ?_, fun other more same => by cases same⟩
    have before := accounts d
    simp only [State.unfinished, holds, List.take_length] at before
    simp only [State.unfinished, State.entriesOf, List.filter_append, List.flatMap_append,
      List.append_nil]
    rw [before]
    by_cases own : log entry = d
    · simp [own, State.entriesOf]
    · simp [own, State.entriesOf]

/-- No two entries are ever mixed. -/
theorem ledger (reachable : (machine log content).Reachable s) : Ledger log content s :=
  reachable.invariant
    ⟨fun _ => rfl, fun _ _ same => by cases same⟩
    (fun _ _ _ enabled holds => ledger_next enabled holds)

end ProtoJS.LockedLogs
