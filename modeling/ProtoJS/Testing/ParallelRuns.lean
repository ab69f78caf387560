import ProtoJS.Machine.Run
import ProtoJS.Testing.NodeJSTestRunner

/-! # Running tests in parallel

`runTestSuiteParallel` launches the files in batches, one task a file, and waits for a batch before
it launches the next. A task looks into the cache under the lock, runs the programs outside it and
writes its own slot of the results. Whatever order the tasks take their steps in, a slot that is
written holds what the sequential run makes of its file.
-/

namespace ProtoJS.Testing

open Strings

/-- Where a task stands in `runTestInternal` and behind it. -/
inductive TaskPc
  | unlaunched
  | looking
  | executingNode
  | storing (expected : Text)
  | executingProtoJS (expected : Text)
  | writing (result : TestResult)
  | done
deriving DecidableEq, Repr

/-- The shared state: `next` is the first file not launched, `joined` the first one of the batch. -/
structure State where
  cache : Cache
  next : ℕ := 0
  joined : ℕ := 0
  tasks : ℕ → TaskPc := fun _ => .unlaunched
  results : List TestResult

inductive Action
  | launch
  /-- All futures of the batch are ready. -/
  | join
  /-- The task of an index takes a step. -/
  | advance (idx : ℕ)
deriving DecidableEq, Repr

/-- What a run is given. -/
structure Suite where
  programs : Programs
  enabled : Bool
  cache : Cache
  testFiles : List Text
  maxConcurrency : ℕ

namespace Suite

variable (suite : Suite)

def batchSize : ℕ := if suite.maxConcurrency = 0 then 1 else suite.maxConcurrency

def testFile (idx : ℕ) : Text := suite.testFiles.getD idx []

def Enabled (s : State) : Action → Prop
  | .launch => s.next < suite.testFiles.length ∧ s.next < s.joined + suite.batchSize
  | .join => s.joined < s.next ∧
      (s.next = suite.testFiles.length ∨ s.next = s.joined + suite.batchSize) ∧
      ∀ idx, s.joined ≤ idx → idx < s.next → s.tasks idx = .done
  | .advance idx => s.tasks idx ≠ .unlaunched ∧ s.tasks idx ≠ .done

def setTask (s : State) (idx : ℕ) (pc : TaskPc) : State :=
  { s with tasks := Function.update s.tasks idx pc }

def advance (s : State) (idx : ℕ) : State :=
  match s.tasks idx with
  | .looking =>
    let expected := lookup suite.enabled s.cache (suite.testFile idx)
    setTask s idx (if expected = [] then .executingNode else .executingProtoJS expected)
  | .executingNode => setTask s idx (.storing (suite.programs.node (suite.testFile idx)))
  | .storing expected =>
    setTask { s with cache := store suite.enabled s.cache (suite.testFile idx) expected } idx
      (.executingProtoJS expected)
  | .executingProtoJS expected =>
    setTask s idx (.writing (resultOf suite.programs (suite.testFile idx) expected))
  | .writing result => setTask { s with results := s.results.set idx result } idx .done
  | .unlaunched | .done => s

def next (s : State) : Action → State
  | .launch => setTask { s with next := s.next + 1 } s.next .looking
  | .join => { s with joined := s.next }
  | .advance idx => suite.advance s idx

/-- The run of a suite by its tasks and the thread that launches them. -/
def parallel : Machine State Action where
  initial := { cache := suite.cache, results := suite.testFiles.map fun _ => {} }
  Enabled := suite.Enabled
  next := suite.next

/-- The last batch has been waited for. -/
def Finished (s : State) : Prop := s.joined = suite.testFiles.length

/-- What is expected of the file of an index, at the start and all along. -/
def expected (idx : ℕ) : Text :=
  expectation suite.programs suite.enabled suite.cache (suite.testFile idx)

/-- What a task may have in hand. -/
def Sound (s : State) (idx : ℕ) : TaskPc → Prop
  | .unlaunched => s.next ≤ idx
  | .looking => idx < s.next
  | .executingNode =>
    idx < s.next ∧ suite.expected idx = suite.programs.node (suite.testFile idx)
  | .storing expected =>
    idx < s.next ∧ expected = suite.expected idx ∧
      expected = suite.programs.node (suite.testFile idx)
  | .executingProtoJS expected => idx < s.next ∧ expected = suite.expected idx
  | .writing result =>
    idx < s.next ∧ result = resultOf suite.programs (suite.testFile idx) (suite.expected idx)
  | .done =>
    idx < s.next ∧
      s.results[idx]? = some (resultOf suite.programs (suite.testFile idx) (suite.expected idx))

structure Inv (s : State) : Prop where
  cache : expectation suite.programs suite.enabled s.cache =
    expectation suite.programs suite.enabled suite.cache
  length : s.results.length = suite.testFiles.length
  next_le : s.next ≤ suite.testFiles.length
  joined_le : s.joined ≤ s.next
  batch_le : s.next ≤ s.joined + suite.batchSize
  joined : ∀ idx < s.joined, s.tasks idx = .done
  task : ∀ idx, suite.Sound s idx (s.tasks idx)

variable {suite} {s s' t : State} {as : List Action} {a : Action} {idx : ℕ} {pc : TaskPc}

/-! ### What a step keeps -/

/-- What a task has in hand stays sound while its slot stays. -/
theorem Sound.congr (sound : suite.Sound s idx pc) (next : s'.next = s.next)
    (slot : s'.results[idx]? = s.results[idx]?) : suite.Sound s' idx pc := by
  cases pc <;> simpa only [Sound, next, slot] using sound

theorem inv_launch (enabled : suite.Enabled s .launch) (inv : suite.Inv s) :
    suite.Inv (suite.next s .launch) := by
  obtain ⟨more, room⟩ := enabled
  refine ⟨inv.cache, inv.length, more, Nat.le_succ_of_le inv.joined_le, room, ?_, ?_⟩
  · intro idx before
    have early : idx < s.joined := before
    have below := inv.joined_le
    simp only [Suite.next, setTask]
    rw [Function.update_of_ne (by omega)]
    exact inv.joined idx before
  · intro idx
    have sound := inv.task idx
    simp only [Suite.next, setTask]
    rcases eq_or_ne idx s.next with rfl | other
    · rw [Function.update_self]
      exact Nat.lt_succ_self _
    · rw [Function.update_of_ne other]
      cases here : s.tasks idx with
      | unlaunched =>
        rw [here] at sound
        exact Nat.lt_of_le_of_ne sound other.symm
      | looking =>
        rw [here] at sound
        exact Nat.lt_succ_of_lt sound
      | _ =>
        rw [here] at sound
        exact ⟨Nat.lt_succ_of_lt sound.1, sound.2⟩

theorem inv_join (enabled : suite.Enabled s .join) (inv : suite.Inv s) :
    suite.Inv (suite.next s .join) := by
  obtain ⟨_, _, done⟩ := enabled
  refine ⟨inv.cache, inv.length, inv.next_le, le_rfl, Nat.le_add_right _ _, ?_, ?_⟩
  · intro idx before
    rcases lt_or_ge idx s.joined with joined | batch
    · exact inv.joined idx joined
    · exact done idx batch before
  · intro idx
    exact (inv.task idx).congr rfl rfl

/-- A task goes on: it may touch the cache and its own slot. -/
theorem inv_setTask (inv : suite.Inv s) (working : s.tasks idx ≠ .done)
    (same : s'.next = s.next ∧ s'.joined = s.joined ∧ s'.tasks = s.tasks)
    (cache : expectation suite.programs suite.enabled s'.cache =
      expectation suite.programs suite.enabled s.cache)
    (length : s'.results.length = s.results.length)
    (slots : ∀ other ≠ idx, s'.results[other]? = s.results[other]?)
    (sound : suite.Sound s' idx pc) : suite.Inv (setTask s' idx pc) := by
  obtain ⟨next, joined, tasks⟩ := same
  refine ⟨cache.trans inv.cache, length.trans inv.length, ?_, ?_, ?_, ?_, ?_⟩
  · simpa only [setTask, next] using inv.next_le
  · simpa only [setTask, next, joined] using inv.joined_le
  · simpa only [setTask, next, joined] using inv.batch_le
  · intro other before
    simp only [setTask, joined] at before ⊢
    have done := inv.joined other before
    have differ : other ≠ idx := by
      rintro rfl
      exact working done
    rwa [Function.update_of_ne differ, tasks]
  · intro other
    simp only [setTask]
    rcases eq_or_ne other idx with rfl | differ
    · rw [Function.update_self]
      exact sound.congr rfl rfl
    · rw [Function.update_of_ne differ, tasks]
      exact (inv.task other).congr next (slots other differ)

theorem inv_advance (enabled : suite.Enabled s (.advance idx)) (inv : suite.Inv s) :
    suite.Inv (suite.next s (.advance idx)) := by
  obtain ⟨launched, working⟩ := enabled
  have sound := inv.task idx
  rw [Suite.next, advance]
  cases here : s.tasks idx with
  | unlaunched => exact absurd here launched
  | done => exact absurd here working
  | looking =>
    rw [here] at sound
    refine inv_setTask inv working ⟨rfl, rfl, rfl⟩ rfl rfl (fun _ _ => rfl) ?_
    have settled : suite.expected idx =
        expectation suite.programs suite.enabled s.cache (suite.testFile idx) := by
      rw [inv.cache, expected]
    split
    · rename_i absent
      exact ⟨sound, settled.trans (expectation_of_node absent)⟩
    · rename_i cached
      exact ⟨sound, (settled.trans (expectation_of_lookup cached)).symm⟩
  | executingNode =>
    rw [here] at sound
    exact inv_setTask inv working ⟨rfl, rfl, rfl⟩ rfl rfl (fun _ _ => rfl)
      ⟨sound.1, sound.2.symm, rfl⟩
  | storing expected =>
    rw [here] at sound
    obtain ⟨before, rfl, node⟩ := sound
    refine inv_setTask inv working ⟨rfl, rfl, rfl⟩ ?_ rfl (fun _ _ => rfl) ⟨before, rfl⟩
    have settled : expectation suite.programs suite.enabled s.cache (suite.testFile idx) =
        suite.programs.node (suite.testFile idx) := by
      rw [inv.cache, ← node, Suite.expected]
    simp only [node]
    exact expectation_store settled
  | executingProtoJS expected =>
    rw [here] at sound
    obtain ⟨before, rfl⟩ := sound
    exact inv_setTask inv working ⟨rfl, rfl, rfl⟩ rfl rfl (fun _ _ => rfl) ⟨before, rfl⟩
  | writing result =>
    rw [here] at sound
    obtain ⟨before, rfl⟩ := sound
    refine inv_setTask inv working ⟨rfl, rfl, rfl⟩ rfl (List.length_set ..) ?_ ⟨before, ?_⟩
    · intro other differ
      exact List.getElem?_set_ne differ.symm
    · have inRange := inv.next_le
      exact List.getElem?_set_self (by rw [inv.length]; omega)

theorem inv (reachable : suite.parallel.Reachable s) : suite.Inv s := by
  apply reachable.invariant
  · refine ⟨rfl, by simp [parallel], Nat.zero_le _, le_rfl, Nat.zero_le _, ?_, ?_⟩
    · exact fun idx before => absurd before (Nat.not_lt_zero _)
    · exact fun idx => Nat.zero_le _
  · intro s a _ enabled holds
    cases a with
    | launch => exact inv_launch enabled holds
    | join => exact inv_join enabled holds
    | advance idx => exact inv_advance enabled holds

/-- When the last batch has been waited for, every slot holds what the sequential run finds. -/
theorem results_of_finished (reachable : suite.parallel.Reachable s) (finished : suite.Finished s) :
    s.results = suite.testFiles.map
      (settledResult suite.programs suite.enabled suite.cache) := by
  have holds := inv reachable
  apply List.ext_getElem?
  intro idx
  rcases lt_or_ge idx suite.testFiles.length with inside | outside
  · have done := holds.joined idx (finished.symm ▸ inside)
    have sound := holds.task idx
    rw [done] at sound
    rw [sound.2, List.getElem?_map, List.getElem?_eq_getElem inside, Option.map_some, settledResult,
      expected, testFile, List.getD_eq_getElem _ _ inside]
  · rw [List.getElem?_eq_none (by rw [holds.length]; exact outside),
      List.getElem?_eq_none (by rw [List.length_map]; exact outside)]

/-! ### Every run ends -/

/-- The steps a task has before it. -/
def steps : TaskPc → ℕ
  | .unlaunched => 6
  | .looking => 5
  | .executingNode => 4
  | .storing _ => 3
  | .executingProtoJS _ => 2
  | .writing _ => 1
  | .done => 0

variable (suite) in
/-- The steps of all tasks, and the files that have not been waited for. -/
def work (s : State) : ℕ :=
  ∑ idx ∈ Finset.range suite.testFiles.length, steps (s.tasks idx) +
    (suite.testFiles.length - s.joined)

/-- A task that takes a step takes work away. -/
theorem work_setTask_lt (inside : idx < suite.testFiles.length)
    (joined : s'.joined = s.joined) (tasks : s'.tasks = s.tasks)
    (fewer : steps pc < steps (s.tasks idx)) : suite.work (setTask s' idx pc) < suite.work s := by
  have less : ∑ i ∈ Finset.range suite.testFiles.length, steps ((setTask s' idx pc).tasks i) <
      ∑ i ∈ Finset.range suite.testFiles.length, steps (s.tasks i) := by
    apply Machine.sum_range_lt inside
    · intro i other
      simp only [setTask, tasks]
      rw [Function.update_of_ne other]
    · simpa only [setTask, Function.update_self] using fewer
  have waiting : (setTask s' idx pc).joined = s.joined := joined
  rw [work, work, waiting]
  omega

theorem work_next_lt (reachable : suite.parallel.Reachable s) (enabled : suite.Enabled s a) :
    suite.work (suite.next s a) < suite.work s := by
  have holds := inv reachable
  cases a with
  | launch =>
    have here : s.tasks s.next = .unlaunched := by
      have sound := holds.task s.next
      cases pc : s.tasks s.next with
      | unlaunched => rfl
      | looking =>
        rw [pc] at sound
        exact absurd sound (Nat.lt_irrefl _)
      | _ =>
        rw [pc] at sound
        exact absurd sound.1 (Nat.lt_irrefl _)
    exact work_setTask_lt enabled.1 rfl rfl (by rw [here]; decide)
  | join =>
    obtain ⟨more, _, _⟩ := enabled
    have bound := holds.next_le
    simp only [work, Suite.next]
    omega
  | advance idx =>
    obtain ⟨launched, working⟩ := enabled
    have inside : idx < suite.testFiles.length := by
      have sound := holds.task idx
      have bound := holds.next_le
      cases pc : s.tasks idx with
      | unlaunched => exact absurd pc launched
      | looking =>
        rw [pc] at sound
        exact lt_of_lt_of_le sound bound
      | _ =>
        rw [pc] at sound
        exact lt_of_lt_of_le sound.1 bound
    rw [Suite.next, advance]
    cases here : s.tasks idx with
    | unlaunched => exact absurd here launched
    | done => exact absurd here working
    | looking =>
      refine work_setTask_lt inside rfl rfl ?_
      rw [here]
      split
      · decide
      · exact (by decide : 2 < 5)
    | executingNode => exact work_setTask_lt inside rfl rfl (by rw [here]; exact Nat.lt_succ_self 3)
    | storing expected => exact work_setTask_lt inside rfl rfl (by rw [here]; exact Nat.lt_succ_self 2)
    | executingProtoJS expected =>
      exact work_setTask_lt inside rfl rfl (by rw [here]; exact Nat.lt_succ_self 1)
    | writing result => exact work_setTask_lt inside rfl rfl (by rw [here]; exact Nat.lt_succ_self 0)

/-- Until the last batch has been waited for, someone can take a step. -/
theorem exists_enabled (reachable : suite.parallel.Reachable s)
    (unfinished : ¬ suite.Finished s) : ∃ a, suite.parallel.Enabled s a := by
  have holds := inv reachable
  have positive : 0 < suite.batchSize := by
    rw [batchSize]
    split <;> omega
  have bounds := And.intro holds.joined_le holds.next_le
  rw [Finished] at unfinished
  rcases Decidable.em (s.next < suite.testFiles.length ∧ s.next < s.joined + suite.batchSize) with
    room | full
  · exact ⟨.launch, room⟩
  · rcases Decidable.em (∀ idx < s.next, s.joined ≤ idx → s.tasks idx = .done) with done | busy
    · have batch := holds.batch_le
      exact ⟨.join, by omega, by omega, fun idx from_ before => done idx before from_⟩
    · obtain ⟨idx, before, _, working⟩ :
          ∃ idx, idx < s.next ∧ s.joined ≤ idx ∧ s.tasks idx ≠ .done := by simpa using busy
      refine ⟨.advance idx, ?_, working⟩
      intro unlaunched
      have sound := holds.task idx
      rw [unlaunched] at sound
      exact absurd before (Nat.not_lt.mpr sound)

/-- Every schedule of the tasks can be completed, none goes on for ever, and when it is complete
the report is that of the sequential run, whose counts add up to its total. -/
theorem parallel_report {ν : Type} [Zero ν] [NatCast ν] [IntCast ν] [Mul ν] [Div ν] [LT ν]
    [DecidableLT ν] (run : suite.parallel.Run suite.parallel.initial as s) :
    as.length ≤ 7 * suite.testFiles.length ∧
      (∃ more t, suite.parallel.Run s more t ∧ suite.Finished t) ∧
      (suite.Finished s →
        summarize (ν := ν) suite.testFiles s.results =
          runTestSuite suite.programs suite.enabled suite.cache suite.testFiles) ∧
      let report : CompatibilityReport ν :=
        runTestSuite suite.programs suite.enabled suite.cache suite.testFiles
      report.passed_tests + report.failed_tests = report.total_tests := by
  have reachable : suite.parallel.Reachable s := ⟨as, run⟩
  have shrinks : ∀ s a, suite.parallel.Reachable s → suite.parallel.Enabled s a →
      suite.work (suite.parallel.next s a) < suite.work s :=
    fun _ _ reachable enabled => work_next_lt reachable enabled
  refine ⟨?_, ?_, ?_, ?_⟩
  · have bound := run.length_le .initial shrinks
    have start : suite.work suite.parallel.initial = 7 * suite.testFiles.length := by
      simp only [work, parallel, steps, Finset.sum_const, Finset.card_range, smul_eq_mul]
      omega
    omega
  · exact reachable.finishes shrinks fun _ reachable => exists_enabled reachable
  · intro finished
    rw [results_of_finished reachable finished, runTestSuite_eq_summarize]
  · simp only
    rw [runTestSuite_eq_summarize]
    exact passed_add_failed (List.length_map _)

/-- A suite of one file that both runtimes print the same for but for white space. -/
def single : Suite where
  programs := { node := fun _ => "ok\n".toList, protojs := fun _ => "ok".toList }
  enabled := true
  cache := []
  testFiles := ["a.js".toList]
  maxConcurrency := 4

def singleSchedule : List Action :=
  [.launch, .advance 0, .advance 0, .advance 0, .advance 0, .advance 0, .join]

theorem parallel_report_single :
    summarize (ν := ℚ) single.testFiles
        (singleSchedule.foldl single.next single.parallel.initial).results =
      runTestSuite single.programs single.enabled single.cache single.testFiles := by
  have alone (idx : ℕ) (_ : 0 ≤ idx) (before : idx < 1) :
      (singleSchedule.dropLast.foldl single.next single.parallel.initial).tasks idx = .done := by
    obtain rfl : idx = 0 := by omega
    decide
  have run : single.parallel.Run single.parallel.initial singleSchedule
      (singleSchedule.foldl single.next single.parallel.initial) :=
    .cons ⟨by decide, by decide⟩ <| .cons ⟨by decide, by decide⟩ <|
      .cons ⟨by decide, by decide⟩ <| .cons ⟨by decide, by decide⟩ <|
      .cons ⟨by decide, by decide⟩ <| .cons ⟨by decide, by decide⟩ <|
      .cons ⟨by decide, .inl rfl, alone⟩ <| .nil _
  exact (parallel_report run).2.2.1 rfl

end Suite

end ProtoJS.Testing
