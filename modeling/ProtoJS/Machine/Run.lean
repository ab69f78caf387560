import Mathlib

/-! # Guarded machines and their finite runs

A machine is one initial state, a guard for every action and the one state each action leads to.
Nondeterminism lives in the choice of the action alone, so a run is determined by its first state
and its actions, and it can be replayed. Invariants are proved on single actions and lifted to
every reachable state here, once. Restricting a machine to the steps that meet a condition keeps
exactly the runs all of whose steps meet it.
-/

namespace ProtoJS

/-- A transition system whose actions are guarded and have one effect each. -/
structure Machine (σ α : Type*) where
  initial : σ
  Enabled : σ → α → Prop
  next : σ → α → σ

namespace Machine

variable {σ α : Type*}

/-- A finite run carrying exactly the actions it takes. -/
inductive Run (m : Machine σ α) : σ → List α → σ → Prop
  | nil (s : σ) : Run m s [] s
  | cons {s t : σ} {a : α} {as : List α} :
      m.Enabled s a → Run m (m.next s a) as t → Run m s (a :: as) t

/-- The states some run from the initial state ends in. -/
def Reachable (m : Machine σ α) (s : σ) : Prop := ∃ as, m.Run m.initial as s

variable {m : Machine σ α} {s t u : σ} {a : α} {as bs : List α}

theorem run_nil_iff : m.Run s [] t ↔ t = s := by
  constructor
  · intro run
    cases run
    rfl
  · rintro rfl
    exact .nil _

theorem run_cons_iff : m.Run s (a :: as) t ↔ m.Enabled s a ∧ m.Run (m.next s a) as t := by
  constructor
  · intro run
    cases run with
    | cons enabled rest => exact ⟨enabled, rest⟩
  · rintro ⟨enabled, rest⟩
    exact .cons enabled rest

/-- Two runs compose at the state they share. -/
theorem run_append_iff : m.Run s (as ++ bs) u ↔ ∃ t, m.Run s as t ∧ m.Run t bs u := by
  induction as generalizing s with
  | nil => simp [run_nil_iff]
  | cons a as ih =>
    simp only [List.cons_append, run_cons_iff, ih]
    constructor
    · rintro ⟨enabled, t, first, second⟩
      exact ⟨t, ⟨enabled, first⟩, second⟩
    · rintro ⟨t, ⟨enabled, first⟩, second⟩
      exact ⟨enabled, t, first, second⟩

theorem Run.append (first : m.Run s as t) (second : m.Run t bs u) : m.Run s (as ++ bs) u :=
  run_append_iff.mpr ⟨t, first, second⟩

theorem Run.single (enabled : m.Enabled s a) : m.Run s [a] (m.next s a) :=
  .cons enabled (.nil _)

/-- The actions fix the state a run ends in. -/
theorem Run.unique (left : m.Run s as t) (right : m.Run s as u) : t = u := by
  induction left with
  | nil => exact (run_nil_iff.mp right).symm
  | cons _ _ ih => exact ih (run_cons_iff.mp right).2

/-- What every enabled action preserves, every run preserves. -/
theorem Run.preserves {P : σ → Prop} (run : m.Run s as t) (holds : P s)
    (step : ∀ s a, m.Enabled s a → P s → P (m.next s a)) : P t := by
  induction run with
  | nil => exact holds
  | cons enabled _ ih => exact ih (step _ _ enabled holds)

/-- The same for the runs whose actions all satisfy a condition. -/
theorem Run.preserves_of {P : σ → Prop} {Q : α → Prop} (run : m.Run s as t) (holds : P s)
    (allowed : ∀ a ∈ as, Q a) (step : ∀ s a, m.Enabled s a → Q a → P s → P (m.next s a)) : P t := by
  induction run with
  | nil => exact holds
  | cons enabled _ ih =>
    exact ih (step _ _ enabled (allowed _ List.mem_cons_self) holds)
      (fun a member => allowed a (List.mem_cons_of_mem _ member))

theorem Reachable.initial : m.Reachable m.initial := ⟨[], .nil _⟩

theorem Reachable.run (reachable : m.Reachable s) (run : m.Run s as t) : m.Reachable t := by
  obtain ⟨before, first⟩ := reachable
  exact ⟨before ++ as, first.append run⟩

theorem Reachable.next (reachable : m.Reachable s) (enabled : m.Enabled s a) :
    m.Reachable (m.next s a) := reachable.run (.single enabled)

/-- The invariant rule: what holds initially and is preserved from reachable states holds in
every reachable state. -/
theorem Reachable.invariant {P : σ → Prop} (initial : P m.initial)
    (step : ∀ s a, m.Reachable s → m.Enabled s a → P s → P (m.next s a))
    (reachable : m.Reachable s) : P s := by
  obtain ⟨as, run⟩ := reachable
  have both : m.Reachable s ∧ P s := run.preserves (P := fun s => m.Reachable s ∧ P s)
    ⟨.initial, initial⟩ (fun s a enabled holds =>
      ⟨holds.1.next enabled, step s a holds.1 enabled holds.2⟩)
  exact both.2

/-- The history rule: a property of a run and its last state, kept by one more action. -/
theorem Run.history {P : List α → σ → Prop} (run : m.Run s as t) (start : P [] s)
    (step : ∀ as t a, m.Run s as t → m.Enabled t a → P as t → P (as ++ [a]) (m.next t a)) :
    P as t := by
  induction as using List.reverseRecOn generalizing t with
  | nil =>
    rw [run_nil_iff.mp run]
    exact start
  | append_singleton as a ih =>
    obtain ⟨u, before, last⟩ := run_append_iff.mp run
    obtain ⟨enabled, rest⟩ := run_cons_iff.mp last
    rw [run_nil_iff.mp rest]
    exact step as u a before enabled (ih before)

/-- Only the steps that meet a condition remain. -/
def restrict (m : Machine σ α) (P : σ → α → Prop) : Machine σ α where
  initial := m.initial
  Enabled s a := m.Enabled s a ∧ P s a
  next := m.next

@[simp] theorem restrict_next (P : σ → α → Prop) : (m.restrict P).next = m.next := rfl

instance (P : σ → α → Prop) [∀ s a, Decidable (m.Enabled s a)] [∀ s a, Decidable (P s a)]
    (s : σ) (a : α) : Decidable ((m.restrict P).Enabled s a) :=
  inferInstanceAs (Decidable (m.Enabled s a ∧ P s a))

theorem Run.of_restrict {P : σ → α → Prop} (run : (m.restrict P).Run s as t) : m.Run s as t := by
  induction run with
  | nil => exact .nil _
  | cons enabled _ ih => exact .cons enabled.1 ih

theorem Reachable.of_restrict {P : σ → α → Prop} (reachable : (m.restrict P).Reachable s) :
    m.Reachable s := by
  obtain ⟨as, run⟩ := reachable
  exact ⟨as, run.of_restrict⟩

/-- A restricted run is a run of the machine each of whose steps meets the condition. -/
theorem restrict_run_iff {P : σ → α → Prop} :
    (m.restrict P).Run s as t ↔ m.Run s as t ∧
      ∀ prior a rest mid, as = prior ++ a :: rest → m.Run s prior mid → P mid a := by
  constructor
  · intro run
    refine ⟨run.of_restrict, ?_⟩
    rintro prior a rest mid rfl before
    obtain ⟨mid', first, second⟩ := run_append_iff.mp run
    rw [before.unique first.of_restrict]
    exact (run_cons_iff.mp second).1.2
  · rintro ⟨run, meets⟩
    induction run with
    | nil => exact .nil _
    | @cons s t a as enabled _ ih =>
      refine .cons ⟨enabled, meets [] a as s rfl (.nil s)⟩ (ih ?_)
      intro prior b rest mid same before
      exact meets (a :: prior) b rest mid (by rw [same]; rfl) (.cons enabled before)

/-- Where one action keeps a property exactly if it meets a condition, the states that a run goes
through all have the property exactly if its actions all meet the condition. -/
theorem Run.throughout_iff {P : σ → Prop} {Q : σ → α → Prop} (run : m.Run s as t)
    (reachable : m.Reachable s) (start : P s)
    (step : ∀ s a, m.Reachable s → m.Enabled s a → P s → (P (m.next s a) ↔ Q s a)) :
    (∀ prior rest mid, as = prior ++ rest → m.Run s prior mid → P mid) ↔
      (m.restrict Q).Run s as t := by
  induction run with
  | nil s =>
    refine iff_of_true ?_ (.nil _)
    intro prior rest mid same before
    obtain ⟨rfl, _⟩ := List.append_eq_nil_iff.mp same.symm
    rwa [run_nil_iff.mp before]
  | @cons s t a as enabled _ ih =>
    have first := step s a reachable enabled start
    rw [run_cons_iff]
    constructor
    · intro all
      have kept : P (m.next s a) := all [a] as _ rfl (.single enabled)
      refine ⟨⟨enabled, first.mp kept⟩, (ih (reachable.next enabled) kept).mp ?_⟩
      intro prior rest mid same before
      exact all (a :: prior) rest mid (by rw [same]; rfl) (.cons enabled before)
    · rintro ⟨⟨_, meets⟩, later⟩
      have after := (ih (reachable.next enabled) (first.mpr meets)).mpr later
      rintro (_ | ⟨b, prior⟩) rest mid same before
      · rwa [run_nil_iff.mp before]
      · cases same
        exact after prior rest mid rfl (run_cons_iff.mp before).2

/-- Where a property that is lost stays lost, a run ends with it exactly if it starts with it and
its actions all meet the condition under which one action keeps it. -/
theorem Run.final_iff {P : σ → Prop} {Q : σ → α → Prop} (run : m.Run s as t)
    (reachable : m.Reachable s)
    (step : ∀ s a, m.Reachable s → m.Enabled s a → (P (m.next s a) ↔ P s ∧ Q s a)) :
    P t ↔ P s ∧ (m.restrict Q).Run s as t := by
  induction run with
  | nil s => exact (and_iff_left (.nil s)).symm
  | @cons s t a as enabled _ ih =>
    rw [ih (reachable.next enabled), step s a reachable enabled, run_cons_iff, and_assoc]
    exact and_congr_right fun _ => and_congr_left fun _ => (and_iff_right enabled).symm

section Termination

variable {work : σ → ℕ}

/-- Work that is shared out gets less where that of one worker does. -/
theorem sum_range_lt {f g : ℕ → ℕ} {n k : ℕ} (inside : k < n) (others : ∀ j, j ≠ k → f j = g j)
    (fewer : f k < g k) : ∑ j ∈ Finset.range n, f j < ∑ j ∈ Finset.range n, g j := by
  apply Finset.sum_lt_sum
  · intro j _
    rcases eq_or_ne j k with rfl | other
    · exact fewer.le
    · exact (others j other).le
  · exact ⟨k, Finset.mem_range.2 inside, fewer⟩

/-- Where every action takes work away, there is no run without end. -/
theorem Run.length_le (run : m.Run s as t) (reachable : m.Reachable s)
    (step : ∀ s a, m.Reachable s → m.Enabled s a → work (m.next s a) < work s) :
    as.length + work t ≤ work s := by
  induction run with
  | nil => simp
  | @cons s t a as enabled _ ih =>
    have first := step s a reachable enabled
    have rest := ih (reachable.next enabled)
    rw [List.length_cons]
    omega

/-- Where moreover some action is enabled until the goal is reached, every run can be continued to
the goal. -/
theorem Reachable.finishes {goal : σ → Prop}
    (step : ∀ s a, m.Reachable s → m.Enabled s a → work (m.next s a) < work s)
    (progress : ∀ s, m.Reachable s → ¬ goal s → ∃ a, m.Enabled s a) (reachable : m.Reachable s) :
    ∃ as t, m.Run s as t ∧ goal t := by
  generalize bound : work s = n
  induction n using Nat.strong_induction_on generalizing s with
  | _ n ih =>
    rcases Classical.em (goal s) with there | onTheWay
    · exact ⟨[], s, .nil s, there⟩
    · obtain ⟨a, enabled⟩ := progress s reachable onTheWay
      obtain ⟨as, t, run, there⟩ :=
        ih _ (bound ▸ step s a reachable enabled) (reachable.next enabled) rfl
      exact ⟨a :: as, t, .cons enabled run, there⟩

end Termination

section Replay

variable [∀ s a, Decidable (m.Enabled s a)]

/-- Carry out a list of actions, failing at the first one whose guard does not hold. -/
def replay (m : Machine σ α) [∀ s a, Decidable (m.Enabled s a)] : σ → List α → Option σ
  | s, [] => some s
  | s, a :: as => if m.Enabled s a then m.replay (m.next s a) as else none

theorem replay_eq_some_iff : m.replay s as = some t ↔ m.Run s as t := by
  induction as generalizing s with
  | nil => simp [replay, run_nil_iff, eq_comm]
  | cons a as ih =>
    rw [replay, run_cons_iff, ← ih]
    by_cases enabled : m.Enabled s a <;> simp [enabled]

/-- A property found by replaying a list of actions holds at the end of a run. -/
theorem exists_run_of_replay (s : σ) (as : List α) (P : σ → Prop) [DecidablePred P]
    (found : ((m.replay s as).any fun t => decide (P t)) = true) : ∃ t, m.Run s as t ∧ P t := by
  obtain ⟨t, replayed, holds⟩ := (Option.any_eq_true _ _).mp found
  exact ⟨t, replay_eq_some_iff.mp replayed, of_decide_eq_true holds⟩

end Replay

end Machine

end ProtoJS
