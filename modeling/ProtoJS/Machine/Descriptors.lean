import Mathlib

/-! # File descriptors

A process has a table of its open descriptors. A descriptor that is obtained takes a free number. A
call of `close` is given a number and frees it, whatever is open under it, and the number may be
given out again. Descriptors have names, so that it can be said which one a call was meant for: as
long as every call has hit the one it was meant for, a call hits its own if and only if that was not
closed before.
-/

namespace ProtoJS

structure Descriptors (δ : Type*) where
  /-- What is open under a number. -/
  table : ℕ → Option δ := fun _ => none
  /-- The number a descriptor was given. -/
  number : δ → Option ℕ := fun _ => none
  /-- The calls of `close`: the descriptor each was meant for, and the one it hit. -/
  closes : List (δ × Option δ) := []

namespace Descriptors

variable {δ : Type*}

def give [DecidableEq δ] (x : δ) (n : ℕ) (d : Descriptors δ) : Descriptors δ :=
  { d with
    table := Function.update d.table n (some x)
    number := Function.update d.number x (some n) }

/-- Several descriptors from one call. -/
def giveAll [DecidableEq δ] (xs : List (δ × ℕ)) (d : Descriptors δ) : Descriptors δ :=
  xs.foldl (fun d x => d.give x.1 x.2) d

/-- `close` with the number that a descriptor was given. -/
def close (x : δ) (d : Descriptors δ) : Descriptors δ :=
  match d.number x with
  | none => d
  | some n =>
    { d with
      table := Function.update d.table n none
      closes := d.closes ++ [(x, d.table n)] }

/-- The descriptors that calls of `close` were meant for. -/
def closed (d : Descriptors δ) : List δ := d.closes.map Prod.fst

/-- Every call has hit the descriptor it was meant for. -/
def Right (d : Descriptors δ) : Prop := ∀ call ∈ d.closes, call.2 = some call.1

instance [DecidableEq δ] (d : Descriptors δ) : Decidable d.Right :=
  inferInstanceAs (Decidable (∀ call ∈ d.closes, call.2 = some call.1))

/-- What holds of the table, however descriptors are obtained and closed. -/
structure Wf (d : Descriptors δ) : Prop where
  numbered : ∀ {n x}, d.table n = some x → d.number x = some n
  given : ∀ {x}, x ∈ d.closed → d.number x ≠ none
  present : d.Right → ∀ {x n}, d.number x = some n → (d.table n = some x ↔ x ∉ d.closed)
  once : d.Right → d.closed.Nodup

variable {d : Descriptors δ} {x y : δ} {n : ℕ}

section Give

variable [DecidableEq δ]

@[simp] theorem closed_give : (d.give x n).closed = d.closed := rfl

theorem number_give : (d.give x n).number y = if y = x then some n else d.number y :=
  Function.update_apply ..

theorem Wf.give (wf : d.Wf) (free : d.table n = none) (fresh : d.number x = none) :
    (d.give x n).Wf := by
  have unclosed : x ∉ d.closed := fun member => wf.given member fresh
  refine ⟨?_, ?_, ?_, wf.once⟩
  · intro m y entry
    rw [number_give]
    rcases eq_or_ne m n with rfl | other
    · simp only [Descriptors.give, Function.update_self, Option.some.injEq] at entry
      rw [if_pos entry.symm]
    · simp only [Descriptors.give, Function.update_of_ne other] at entry
      have before := wf.numbered entry
      have differ : y ≠ x := by
        rintro rfl
        rw [fresh] at before
        cases before
      rw [if_neg differ, before]
  · intro y member
    rw [number_give]
    split
    · exact Option.some_ne_none n
    · exact wf.given member
  · intro right y m named
    rw [number_give] at named
    rw [closed_give]
    split at named
    · rename_i same
      cases named
      subst same
      simp [Descriptors.give, unclosed]
    · rename_i differ
      have before := wf.present right named
      rcases eq_or_ne m n with rfl | other
      · rw [free] at before
        simp only [Descriptors.give, Function.update_self, Option.some.injEq, ← before]
        exact iff_of_false (Ne.symm differ) (Option.some_ne_none y).symm
      · simpa only [Descriptors.give, Function.update_of_ne other] using before

/-- New descriptors with numbers that are free and differ. -/
theorem Wf.giveAll {xs : List (δ × ℕ)} (wf : d.Wf)
    (fresh : ∀ y ∈ xs.map Prod.fst, d.number y = none) (distinct : (xs.map Prod.fst).Nodup)
    (free : ∀ m ∈ xs.map Prod.snd, d.table m = none) (apart : (xs.map Prod.snd).Nodup) :
    (d.giveAll xs).Wf := by
  induction xs generalizing d with
  | nil => exact wf
  | cons first xs ih =>
    simp only [List.map_cons, List.forall_mem_cons, List.nodup_cons] at fresh distinct free apart
    refine ih (wf.give free.1 fresh.1) ?_ distinct.2 ?_ apart.2
    · intro y member
      have differ : y ≠ first.1 := fun same => distinct.1 (same ▸ member)
      rw [number_give, if_neg differ]
      exact fresh.2 y member
    · intro m member
      have other : m ≠ first.2 := fun same => apart.1 (same ▸ member)
      simpa only [Descriptors.give, Function.update_of_ne other] using free.2 m member

end Give

theorem closed_close (obtained : d.number x = some n) : (d.close x).closed = d.closed ++ [x] := by
  simp [close, obtained, closed]

@[simp] theorem number_close : (d.close x).number = d.number := by
  rw [close]
  split
  · rfl
  · rfl

/-- As long as all calls were right, the next one is right if and only if it is the first one meant
for its descriptor. -/
theorem right_close_iff (wf : d.Wf) (obtained : d.number x = some n) :
    (d.close x).Right ↔ d.Right ∧ x ∉ d.closed := by
  have calls : (d.close x).Right ↔ d.Right ∧ d.table n = some x := by
    simp only [Right, close, obtained, List.forall_mem_append, List.forall_mem_singleton]
  rw [calls]
  exact and_congr_right fun right => wf.present right obtained

theorem Wf.close (wf : d.Wf) (obtained : d.number x = some n) : (d.close x).Wf := by
  have table : (d.close x).table = Function.update d.table n none := by
    simp only [Descriptors.close, obtained]
  have closed := closed_close obtained
  refine ⟨?_, ?_, ?_, ?_⟩
  · intro m y entry
    rw [number_close]
    rcases eq_or_ne m n with rfl | other
    · rw [table, Function.update_self] at entry
      cases entry
    · rw [table, Function.update_of_ne other] at entry
      exact wf.numbered entry
  · intro y member
    rw [closed, List.mem_append, List.mem_singleton] at member
    rw [number_close]
    rcases member with before | rfl
    · exact wf.given before
    · rw [obtained]
      exact Option.some_ne_none n
  · intro right y m named
    obtain ⟨rightBefore, unclosed⟩ := (right_close_iff wf obtained).mp right
    rw [number_close] at named
    rw [closed, List.mem_append, List.mem_singleton, not_or, table]
    have before := wf.present rightBefore named
    rcases eq_or_ne m n with rfl | other
    · -- the number was the closed one's, so another descriptor had lost it before
      rw [Function.update_self]
      refine iff_of_false (Option.some_ne_none y).symm ?_
      rintro ⟨opened, differ⟩
      have own := (wf.present rightBefore obtained).mpr unclosed
      rw [before.mpr opened] at own
      cases own
      exact differ rfl
    · rw [Function.update_of_ne other, before]
      refine (and_iff_left ?_).symm
      rintro rfl
      rw [named] at obtained
      cases obtained
      exact other rfl
  · intro right
    obtain ⟨rightBefore, unclosed⟩ := (right_close_iff wf obtained).mp right
    rw [closed]
    rw [← List.concat_eq_append]
    exact (wf.once rightBefore).concat unclosed

end Descriptors

end ProtoJS
