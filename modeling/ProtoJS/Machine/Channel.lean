import ProtoJS.Machine.Run

/-! # An exactly-once first-in first-out channel

The abstract purpose of a work queue. Items are sent once each while the channel is open,
delivered from the front, and what is still pending may be discarded once the channel is closed.
The ledger equation says that nothing is lost, duplicated or reordered: what was sent is what was
delivered, then what was discarded, then what is pending.
-/

namespace ProtoJS.Channel

/-- The whole history of a channel together with its present content. -/
structure State (ι : Type*) where
  sent : List ι := []
  delivered : List ι := []
  discarded : List ι := []
  pending : List ι := []
  closed : Bool := false

inductive Action (ι : Type*) where
  | send (item : ι)
  | deliver
  | close
  | discard

variable {ι : Type*}

/-- Sending needs an open channel and a new item, discarding a closed channel. -/
def Enabled (s : State ι) : Action ι → Prop
  | .send item => s.closed = false ∧ item ∉ s.sent
  | .deliver => s.pending ≠ []
  | .close => True
  | .discard => s.closed = true

def next (s : State ι) : Action ι → State ι
  | .send item => { s with sent := s.sent ++ [item], pending := s.pending ++ [item] }
  | .deliver => { s with delivered := s.delivered ++ s.pending.take 1, pending := s.pending.tail }
  | .close => { s with closed := true }
  | .discard => { s with discarded := s.discarded ++ s.pending, pending := [] }

/-- The channel as a machine: open and empty at first. -/
def machine (ι : Type*) : Machine (State ι) (Action ι) where
  initial := {}
  Enabled := Enabled
  next := next

/-- The ledger: discarding happens once the channel is closed, and leaves nothing pending. -/
structure Ledger (s : State ι) : Prop where
  accounts : s.sent = s.delivered ++ (s.discarded ++ s.pending)
  nodup : s.sent.Nodup
  discards : s.discarded ≠ [] → s.closed = true ∧ s.pending = []

private theorem ledger_next {s : State ι} {a : Action ι} (enabled : Enabled s a)
    (ledger : Ledger s) : Ledger (next s a) := by
  obtain ⟨accounts, nodup, discards⟩ := ledger
  cases a with
  | send item =>
    obtain ⟨opened, fresh⟩ := enabled
    refine ⟨?_, ?_, ?_⟩
    · simp only [next, accounts, List.append_assoc]
    · exact List.nodup_append.mpr ⟨nodup, List.nodup_singleton item, by
        intro x member y single same
        rw [List.mem_singleton.mp single] at same
        exact fresh (same ▸ member)⟩
    · intro some
      rw [(discards some).1] at opened
      contradiction
  | deliver =>
    have none : s.discarded = [] := by
      by_contra some
      exact enabled (discards some).2
    refine ⟨?_, nodup, fun some => (some none).elim⟩
    simp only [next, accounts, none, List.nil_append, List.append_assoc]
    congr 1
    cases s.pending <;> rfl
  | close =>
    exact ⟨accounts, nodup, fun some => ⟨rfl, (discards some).2⟩⟩
  | discard =>
    refine ⟨?_, nodup, fun _ => ⟨enabled, rfl⟩⟩
    simp only [next, accounts, List.append_nil]

/-- Every reachable state of the channel keeps its ledger. -/
theorem ledger {s : State ι} (reachable : (machine ι).Reachable s) : Ledger s :=
  reachable.invariant ⟨rfl, List.nodup_nil, fun some => (some rfl).elim⟩
    (fun _ _ _ enabled holds => ledger_next enabled holds)

namespace Ledger

variable {s : State ι} (ledger : Ledger s)
include ledger

/-- Items are delivered in the order in which they were sent. -/
theorem delivered_isPrefix : s.delivered <+: s.sent :=
  ⟨s.discarded ++ s.pending, ledger.accounts.symm⟩

/-- No item is delivered twice. -/
theorem delivered_nodup : s.delivered.Nodup :=
  ledger.nodup.sublist ledger.delivered_isPrefix.sublist

/-- A discarded item was sent and is never among the delivered ones. -/
theorem discarded_disjoint {item : ι} (member : item ∈ s.discarded) : item ∉ s.delivered := by
  have parts := ledger.nodup
  rw [ledger.accounts] at parts
  intro delivered
  exact (List.nodup_append.mp parts).2.2 item delivered item
    (List.mem_append_left _ member) rfl

/-- A pending item has not been delivered. -/
theorem pending_disjoint {item : ι} (member : item ∈ s.pending) : item ∉ s.delivered := by
  have parts := ledger.nodup
  rw [ledger.accounts] at parts
  intro delivered
  exact (List.nodup_append.mp parts).2.2 item delivered item
    (List.mem_append_right _ member) rfl

/-- A drained channel that discarded nothing has delivered everything. -/
theorem delivered_all (kept : s.discarded = []) (drained : s.pending = []) :
    s.delivered = s.sent := by
  rw [ledger.accounts, kept, drained, List.append_nil, List.append_nil]

theorem delivered_of_sent {item : ι} (kept : s.discarded = []) (drained : s.pending = [])
    (sent : item ∈ s.sent) : item ∈ s.delivered :=
  (ledger.delivered_all kept drained).symm ▸ sent

end Ledger

end ProtoJS.Channel
