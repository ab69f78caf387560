import Mathlib

/-! # Calls under one mutex

A call works on a state and knows how often the calling thread already holds the mutex. It answers
with a result and a state, or never: a thread that locks a plain mutex it holds blocks itself, and
a call that runs out of stack does not return either. A function that locks a re-entrant mutex
behaves as its body.
-/

namespace ProtoJS

inductive MutexKind where
  | plain
  | recursive
deriving DecidableEq, Repr

/-- A call on states `σ` with result `α`; the number says how often the mutex is held. -/
def Call (σ α : Type) : Type := ℕ → σ → Option (α × σ)

namespace Call

variable {σ α β : Type}

protected def pure (result : α) : Call σ α := fun _ s => some (result, s)

protected def bind (call : Call σ α) (rest : α → Call σ β) : Call σ β := fun held s =>
  (call held s).bind fun answer => rest answer.1 held answer.2

instance : Monad (Call σ) where
  pure := Call.pure
  bind := Call.bind

def get : Call σ σ := fun _ s => some (s, s)

def modify (change : σ → σ) : Call σ Unit := fun _ s => some ((), change s)

/-- The stack is exhausted. -/
def never : Call σ α := fun _ _ => none

/-- Hold the mutex until the end of the body, as a `std::lock_guard` at its head does. -/
def withLock (kind : MutexKind) (body : Call σ α) : Call σ α := fun held s =>
  if kind = .plain ∧ held ≠ 0 then none else body (held + 1) s

/-- Called without the mutex, with enough stack, the call comes back. -/
def Returns (call : ℕ → Call σ α) (s : σ) : Prop := ∃ stack, (call stack 0 s).isSome = true

variable {held : ℕ} {s : σ} {kind : MutexKind}

@[simp] theorem pure_apply (result : α) : (pure result : Call σ α) held s = some (result, s) := rfl

@[simp] theorem bind_apply (call : Call σ α) (rest : α → Call σ β) :
    (call >>= rest) held s = (call held s).bind fun answer => rest answer.1 held answer.2 := rfl

@[simp] theorem get_apply : (get : Call σ σ) held s = some (s, s) := rfl

@[simp] theorem modify_apply (change : σ → σ) : modify change held s = some ((), change s) := rfl

@[simp] theorem never_apply : (never : Call σ α) held s = none := rfl

@[simp] theorem withLock_recursive (body : Call σ α) :
    withLock .recursive body held s = body (held + 1) s := by
  simp [withLock]

@[simp] theorem withLock_free (body : Call σ α) : withLock kind body 0 s = body 1 s := by
  simp [withLock]

/-- A thread that holds a plain mutex never gets it again. -/
@[simp] theorem withLock_held (body : Call σ α) :
    withLock .plain body (held + 1) s = none := by
  simp [withLock]

end Call

end ProtoJS
