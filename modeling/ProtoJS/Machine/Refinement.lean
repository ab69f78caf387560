import ProtoJS.Machine.Run

/-! # Forward refinement between machines

Every concrete action is answered by a finite run of the abstract machine, possibly an empty
one. The answering actions are computed from the concrete state and action, so a concrete run
determines the abstract run it refines. Invariants of the abstract machine then hold of the
image of every reachable concrete state.
-/

namespace ProtoJS

namespace Machine

variable {σ τ α β : Type*}

/-- A functional refinement: `abs` reads the abstract state off the concrete one, and `emits`
says which abstract actions answer a concrete action. -/
structure Refinement (m : Machine σ α) (spec : Machine τ β) where
  abs : σ → τ
  emits : σ → α → List β
  initial : abs m.initial = spec.initial
  step : ∀ s a, m.Reachable s → m.Enabled s a →
    spec.Run (abs s) (emits s a) (abs (m.next s a))

namespace Refinement

variable {m : Machine σ α} {spec : Machine τ β} (r : m.Refinement spec)
  {s t : σ} {as : List α}

/-- The abstract actions answering a whole concrete run. -/
def trace (r : m.Refinement spec) : σ → List α → List β
  | _, [] => []
  | s, a :: as => r.emits s a ++ r.trace (m.next s a) as

theorem run (reachable : m.Reachable s) (run : m.Run s as t) :
    spec.Run (r.abs s) (r.trace s as) (r.abs t) := by
  induction run with
  | nil => exact .nil _
  | cons enabled _ ih =>
    exact (r.step _ _ reachable enabled).append (ih (reachable.next enabled))

/-- Reachable concrete states are images of reachable abstract ones. -/
theorem reachable (reachable : m.Reachable s) : spec.Reachable (r.abs s) := by
  obtain ⟨as, run⟩ := reachable
  have answered := r.run .initial run
  rw [r.initial] at answered
  exact ⟨_, answered⟩

end Refinement

end Machine

end ProtoJS
