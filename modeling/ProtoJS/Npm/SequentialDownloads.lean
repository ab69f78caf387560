import ProtoJS.Npm.BatchedDownloads

/-! # One schedule of the downloads

The downloads of a batch taken one after the other are one of the schedules of the tasks: in every
world, what `downloadPackages` returns or throws then is what a run of the machine returns or
throws.
-/

namespace ProtoJS.Npm

open Strings Effects

namespace NPMRegistry

namespace DownloadCall

variable {call : DownloadCall} {s : BatchState} {σ : Type}

/-- The counters of the waiting thread are the same. -/
structure SameThread (s t : BatchState) : Prop where
  phase : t.phase = s.phase
  next : t.next = s.next
  start : t.start = s.start
  got : t.got = s.got

theorem SameThread.trans {t u : BatchState} (first : SameThread s t) (second : SameThread t u) :
    SameThread s u :=
  ⟨second.phase.trans first.phase, second.next.trans first.next, second.start.trans first.start,
    second.got.trans first.got⟩

theorem sameThread_turn {k : ℕ} {turn : Turn} (enabled : call.Enabled s (.turn k turn)) :
    SameThread s (call.next s (.turn k turn)) := by
  obtain ⟨task, stage, -, -, next⟩ := turn_cases enabled
  rw [next]
  exact ⟨rfl, rfl, rfl, rfl⟩

theorem reachable_next {a : BatchAction} (reachable : call.machine.Reachable s)
    (enabled : call.Enabled s a) : call.machine.Reachable (call.next s a) :=
  Machine.Reachable.next (m := call.machine) reachable enabled

/-- A turn of a task can be taken where its stage has one. -/
theorem exists_turned {k : ℕ} (turn : Turn) {before after : Stage}
    (reachable : call.machine.Reachable s) (here : s.stage k = some before)
    (advance : before.advance turn = some after) :
    ∃ t, call.machine.Reachable t ∧ SameThread s t ∧ t.stage k = some after ∧
      ∀ j, j ≠ k → t.stage j = s.stage j := by
  obtain ⟨task, there, rfl⟩ := Option.map_eq_some_iff.1 here
  have enabled : call.Enabled s (.turn k turn) := ⟨task, there, by rw [advance]; rfl⟩
  refine ⟨call.next s (.turn k turn), reachable_next reachable enabled, sameThread_turn enabled, ?_,
    fun j other => stage_turn_ne enabled other⟩
  simp only [BatchState.stage, DownloadCall.next, there, advance, Function.update_self,
    Option.map_some]

/-- A task can run from its launch to its end. -/
theorem exists_finished {k : ℕ} (reachable : call.machine.Reachable s)
    (launched : s.stage k = some .launched) (outcome : Except Failure Bool) :
    ∃ t, call.machine.Reachable t ∧ SameThread s t ∧ t.stage k = some (.ready outcome) ∧
      ∀ j, j ≠ k → t.stage j = s.stage j := by
  obtain ⟨t, reachable, same, calling, others⟩ := exists_turned .call reachable launched
    rfl
  cases outcome with
  | error e =>
    obtain ⟨u, reachable, same', ready, others'⟩ := exists_turned (.finish (.error e)) reachable
      calling rfl
    exact ⟨u, reachable, same.trans same', ready,
      fun j other => (others' j other).trans (others j other)⟩
  | ok ok =>
    obtain ⟨u, reachable, same', writing, others'⟩ := exists_turned (.finish (.ok ok)) reachable
      calling rfl
    obtain ⟨v, reachable, same'', ready, others''⟩ := exists_turned .write reachable writing
      rfl
    exact ⟨v, reachable, (same.trans same').trans same'', ready, fun j other =>
      ((others'' j other).trans (others' j other)).trans (others j other)⟩

/-- All tasks from one on can run, one after the other. -/
theorem exists_allFinished (outcomes : List (Except Failure Bool)) {first : ℕ}
    (reachable : call.machine.Reachable s)
    (launched : ∀ k, first ≤ k → k < first + outcomes.length → s.stage k = some .launched) :
    ∃ t, call.machine.Reachable t ∧ SameThread s t ∧
      (∀ i outcome, outcomes[i]? = some outcome → t.stage (first + i) = some (.ready outcome)) ∧
      ∀ j < first, t.stage j = s.stage j := by
  induction outcomes generalizing s first with
  | nil => exact ⟨s, reachable, ⟨rfl, rfl, rfl, rfl⟩, by simp, fun _ _ => rfl⟩
  | cons outcome outcomes ih =>
    obtain ⟨t, reachable, same, ready, others⟩ :=
      exists_finished reachable (launched first le_rfl (by simp)) outcome
    have later (k : ℕ) (after : first + 1 ≤ k) (before : k < first + 1 + outcomes.length) :
        t.stage k = some .launched := by
      rw [others k (by omega)]
      exact launched k (by omega) (by rw [List.length_cons]; omega)
    obtain ⟨u, reachable, same', readies, kept⟩ := ih reachable later
    refine ⟨u, reachable, same.trans same', ?_, ?_⟩
    · intro i o there
      cases i with
      | zero =>
        cases there
        exact (kept first (Nat.lt_succ_self first)).trans ready
      | succ i =>
        rw [← Nat.add_assoc, Nat.add_right_comm]
        exact readies i o there
    · intro j before
      rw [kept j (Nat.lt_succ_of_lt before), others j before.ne]

/-- A batch can be launched. -/
theorem exists_launched (count : ℕ) (reachable : call.machine.Reachable s)
    (running : s.phase = .running) (inside : s.next + count ≤ call.specs.length)
    (room : s.next + count ≤ s.start + call.batchSize) :
    ∃ t, call.machine.Reachable t ∧ t.phase = .running ∧ t.next = s.next + count ∧
      t.start = s.start ∧ t.got = s.got ∧
      (∀ k, s.next ≤ k → k < s.next + count → t.stage k = some .launched) ∧
      ∀ j < s.next, t.stage j = s.stage j := by
  induction count with
  | zero =>
    refine ⟨s, reachable, running, rfl, rfl, rfl, ?_, fun _ _ => rfl⟩
    intro k after before
    omega
  | succ count ih =>
    obtain ⟨t, reachable, running, next, start, got, launched, kept⟩ :=
      ih (by omega) (by omega)
    have enabled : call.Enabled t .launch := ⟨running, by omega, by omega⟩
    refine ⟨call.next t .launch, reachable_next reachable enabled, running,
      congrArg Nat.succ next, start, got, ?_, ?_⟩
    · intro k after before
      rcases eq_or_ne k t.next with rfl | other
      · exact stage_launch enabled
      · rw [stage_launch_ne other]
        exact launched k after (by omega)
    · intro j before
      rw [stage_launch_ne (by omega)]
      exact kept j before

/-- The futures are asked one after the other. -/
theorem triple_gets (outcomes : List (Except Failure Bool)) (results : List Bool)
    (reachable : call.machine.Reachable s) (running : s.phase = .running) (full : call.Full s)
    (waiting : s.got + outcomes.length = s.next) (all : ∀ k < s.next, s.Ready k)
    (ready : ∀ i outcome, outcomes[i]? = some outcome →
      s.stage (s.got + i) = some (.ready outcome)) :
    Triple (fun _ : σ => True)
      (outcomes.foldlM getResult results : EStateM Failure σ (List Bool))
      (fun results' _ => ∃ oks, results' = results ++ oks ∧ outcomes = oks.map .ok ∧
        ∃ t, call.machine.Reachable t ∧ t.phase = .running ∧ t.next = s.next ∧
          t.start = s.start ∧ t.got = s.next ∧ t.tasks = s.tasks)
      (fun e _ => ∃ t, call.machine.Reachable t ∧ t.phase = .threw e) := by
  induction outcomes generalizing s results with
  | nil =>
    apply Triple.pure
    exact fun _ _ => ⟨[], by simp, rfl, s, reachable, running, rfl, rfl, waiting, rfl⟩
  | cons outcome outcomes ih =>
    rw [List.length_cons] at waiting
    have first : s.stage s.got = some (.ready outcome) := ready 0 outcome rfl
    have enabled : call.Enabled s .get := ⟨running, full, by omega, outcome, first⟩
    have gotten := reachable_next reachable enabled
    rw [List.foldlM_cons]
    cases outcome with
    | ok ok =>
      simp only [DownloadCall.next, first] at gotten
      have later (i : ℕ) (o : Except Failure Bool) (there : outcomes[i]? = some o) :
          s.stage (s.got + 1 + i) = some (.ready o) := by
        rw [Nat.add_assoc, Nat.add_comm 1 i]
        exact ready (i + 1) o there
      rw [getResult, pure_bind]
      apply (ih _ gotten running full (by simp only; omega) all later).weaken
        (fun _ holds => holds) _ fun _ _ holds => holds
      rintro results' _ ⟨oks, rfl, rfl, t, reached⟩
      exact ⟨ok :: oks, by simp, rfl, t, reached⟩
    | error e =>
      simp only [DownloadCall.next, first] at gotten
      have unwinds : call.Enabled { s with phase := .unwinding e } .unwind :=
        ⟨⟨e, rfl⟩, fun k _ before => all k before⟩
      apply Triple.bind (Q := fun _ _ => False)
      · exact Triple.throw fun _ _ => ⟨_, reachable_next gotten unwinds, rfl⟩
      · exact fun _ _ impossible => impossible.elim

/-- Between two batches: the calls so far have returned these. -/
structure Between (s : BatchState) (oks : List Bool) : Prop where
  phase : s.phase = .running
  next : s.next = oks.length
  start : s.start = oks.length
  got : s.got = oks.length
  ready : ∀ k ok, oks[k]? = some ok → s.stage k = some (.ready (.ok ok))

theorem between_initial : Between call.machine.initial [] :=
  ⟨rfl, rfl, rfl, rfl, by simp⟩

/-- Whatever the calls of one batch end with, there is a run of the batch in which they do. -/
theorem triple_batch {oks : List Bool} (outcomes : List (Except Failure Bool))
    (reachable : call.machine.Reachable s) (between : Between s oks) (nonempty : outcomes ≠ [])
    (room : outcomes.length ≤ call.batchSize)
    (full : oks.length + outcomes.length = call.specs.length ∨
      oks.length + outcomes.length < call.specs.length ∧ outcomes.length = call.batchSize) :
    Triple (fun _ : σ => True) (outcomes.foldlM getResult oks : EStateM Failure σ (List Bool))
      (fun oks' _ => oks'.length = oks.length + outcomes.length ∧
        ∃ t, call.machine.Reachable t ∧ Between t oks')
      (fun e _ => ∃ t, call.machine.Reachable t ∧ t.phase = .threw e) := by
  obtain ⟨phase, next, start, got, ready⟩ := between
  have positive : 0 < outcomes.length := List.length_pos_iff.2 nonempty
  obtain ⟨t, reachable, running, launchedTo, start', got', launched, kept⟩ :=
    exists_launched outcomes.length reachable phase (by omega) (by omega)
  obtain ⟨u, reachable, same, readies, kept'⟩ := exists_allFinished outcomes reachable launched
  have earlier (k : ℕ) (ok : Bool) (there : oks[k]? = some ok) :
      u.stage k = some (.ready (.ok ok)) := by
    have before : k < oks.length := (List.getElem?_eq_some_iff.1 there).1
    rw [kept' k (by omega), kept k (by omega)]
    exact ready k ok there
  have all (k : ℕ) (before : k < u.next) : u.Ready k := by
    rcases lt_or_ge k oks.length with done | batch
    · exact ⟨_, earlier k oks[k] (List.getElem?_eq_getElem done)⟩
    · have inside : k - s.next < outcomes.length := by
        have counters := same.next
        omega
      have here := readies _ _ (List.getElem?_eq_getElem inside)
      rw [Nat.add_sub_cancel' (by omega)] at here
      exact ⟨_, here⟩
  have counters := And.intro same.next (And.intro same.start same.got)
  have whole : call.Full u := by
    rw [Full]
    omega
  have place : u.got = s.next := by omega
  apply (triple_gets outcomes oks reachable (same.phase.trans running) whole (by omega) all
    (by rwa [place])).weaken (fun _ holds => holds) _ fun _ _ holds => holds
  rintro oks' _ ⟨news, rfl, rfl, v, reachable, running, next', start'', got'', tasks⟩
  rw [List.length_map] at *
  refine ⟨List.length_append, ?_⟩
  have joins : call.Enabled v .join := by
    refine ⟨running, ?_, by omega, by omega⟩
    rw [Full]
    omega
  refine ⟨_, reachable_next reachable joins, running, ?_, ?_, ?_, ?_⟩
  · simp only [DownloadCall.next, List.length_append]
    omega
  · simp only [DownloadCall.next, List.length_append]
    omega
  · simp only [DownloadCall.next, List.length_append]
    omega
  · intro k ok there
    have stage : (call.next v .join).stage k = u.stage k := by
      simp only [DownloadCall.next, BatchState.stage, tasks]
    rw [stage]
    rcases lt_or_ge k oks.length with done | batch
    · rw [List.getElem?_append_left done] at there
      exact earlier k ok there
    · rw [List.getElem?_append_right batch] at there
      have here := readies (k - oks.length) (.ok ok) (by rw [List.getElem?_map, there]; rfl)
      rwa [next, Nat.add_sub_cancel' batch] at here

theorem triple_starts (w : World σ) (registry : Text) (batch : List DownloadSpec)
    {T : Failure → σ → Prop} :
    Triple (fun _ => True) (batch.foldlM (startDownload w registry) [])
      (fun outcomes _ => outcomes.length = batch.length) T := by
  have turn (done : List DownloadSpec) (s : DownloadSpec) (outcomes : List (Except Failure Bool)) :
      Triple (fun _ => outcomes.length = done.length) (startDownload w registry outcomes s)
        (fun outcomes' _ => outcomes'.length = (done ++ [s]).length) T := by
    apply Triple.of_fact
    intro lengths
    rw [startDownload]
    apply (Triple.attempt_any _).bind
    intro outcome
    apply Triple.pure
    intro _ _
    rw [List.length_append, List.length_append, lengths]
    rfl
  apply (Triple.foldlM (fun done s _ => turn done s) []).weaken _ (fun _ _ holds => holds)
    fun _ _ holds => holds
  exact fun _ _ => rfl

theorem batchSize_pos (call : DownloadCall) : 0 < call.batchSize := by
  rw [batchSize]
  split <;> omega

/-- No batch is left. -/
theorem triple_noBatch (w : World σ) (registry : Text) {oks : List Bool}
    (reachable : call.machine.Reachable s) (between : Between s oks)
    (all : oks.length = call.specs.length) :
    Triple (fun _ => True) ([].foldlM (downloadBatch w registry) oks)
      (fun results _ => results.length = call.specs.length ∧
        ∃ t, call.machine.Reachable t ∧ Between t results)
      (fun e _ => ∃ t, call.machine.Reachable t ∧ t.phase = .threw e) :=
  Triple.pure fun _ _ => ⟨all, s, reachable, between⟩

/-- All batches that are left. -/
theorem triple_batches (w : World σ) (registry : Text) (fuel : ℕ)
    (specs : List DownloadSpec) (oks : List Bool) (reachable : call.machine.Reachable s)
    (between : Between s oks) (left : oks.length + specs.length = call.specs.length)
    (enough : specs.length ≤ fuel) :
    Triple (fun _ => True)
      ((batches call.batchSize fuel specs).foldlM (downloadBatch w registry) oks)
      (fun results _ => results.length = call.specs.length ∧
        ∃ t, call.machine.Reachable t ∧ Between t results)
      (fun e _ => ∃ t, call.machine.Reachable t ∧ t.phase = .threw e) := by
  induction fuel generalizing s specs oks with
  | zero => exact triple_noBatch w registry reachable between (by omega)
  | succ fuel ih =>
    rw [batches]
    split
    · rename_i empty
      subst empty
      exact triple_noBatch w registry reachable between left
    · rename_i nonempty
      have positive := batchSize_pos call
      have more : 0 < specs.length := List.length_pos_iff.2 nonempty
      have size := List.length_take (i := call.batchSize) (l := specs)
      rw [List.foldlM_cons, downloadBatch]
      apply Triple.bind (Q := fun oks' _ => oks'.length =
          oks.length + (specs.take call.batchSize).length ∧
        ∃ t, call.machine.Reachable t ∧ Between t oks')
      · apply (triple_starts w registry _).bind
        intro outcomes
        apply Triple.of_fact
        intro lengths
        rw [← lengths]
        apply triple_batch outcomes reachable between
        · rintro rfl
          rw [List.length_nil] at lengths
          omega
        · omega
        · omega
      · intro oks'
        apply Triple.of_fact
        rintro ⟨lengths, t, reachable, between⟩
        have rest : (specs.drop call.batchSize).length = specs.length - call.batchSize :=
          List.length_drop
        have left' : oks'.length + (specs.drop call.batchSize).length = call.specs.length := by
          omega
        exact ih _ _ reachable between left' (by omega)

/-- In every world, what the downloads come to if they are taken one after the other, they come to
in some run of the tasks. -/
theorem downloadPackages_scheduled (w : World σ) (registry : Text) (call : DownloadCall) :
    Triple (fun _ => True) (downloadPackages w call.specs registry call.maxConcurrency)
      (fun results _ => ∃ t, call.machine.Reachable t ∧ call.Returned t ∧ t.results = results)
      (fun e _ => ∃ t, call.machine.Reachable t ∧ t.phase = .threw e) := by
  apply (triple_batches w registry call.specs.length call.specs [] .initial between_initial
    (Nat.zero_add _) le_rfl).weaken (fun _ holds => holds) _ fun _ _ holds => holds
  rintro results _ ⟨lengths, t, reachable, between⟩
  refine ⟨t, reachable, ⟨between.phase, between.start.trans lengths⟩, ?_⟩
  have holds := inv reachable
  apply List.ext_getElem?
  intro k
  rcases lt_or_ge k results.length with inside | outside
  · obtain ⟨task, here, -, -, slot⟩ := holds.stage_of_lt (between.next ▸ inside)
    have ready := between.ready k results[k] (List.getElem?_eq_getElem inside)
    rw [BatchState.stage, here, Option.map_some, Option.some.injEq] at ready
    rw [slot, ready, List.getElem?_eq_getElem inside]
    rfl
  · rw [List.getElem?_eq_none (by rw [holds.length, ← lengths]; exact outside),
      List.getElem?_eq_none outside]

end DownloadCall

end NPMRegistry

end ProtoJS.Npm
