import ProtoJS.Machine.Run
import ProtoJS.Testing.NodeJSTestRunner

/-! # The verdict of a test

`runTest` runs two programs through pipes. Each of the two executions knows whether its program
ran and how it exited, but the test goes by what was read of their outputs alone, and the cache
keeps nothing else of a run of Node.js.
-/

namespace ProtoJS.Testing

open Strings

/-- What becomes of a command: `popen` fails, or a process writes its output and exits with a
status. -/
abbrev Outcome := Option (Text × ℤ)

/-- How many characters one call of `fgets` takes, with room for so many. -/
def fgetsLength : ℕ → Text → ℕ
  | 0, _ => 0
  | _ + 1, [] => 0
  | room + 1, c :: rest => if c = '\n' then 1 else fgetsLength room rest + 1

theorem fgetsLength_pos {room : ℕ} {text : Text} (present : text ≠ []) :
    0 < fgetsLength (room + 1) text := by
  cases text with
  | nil => exact absurd rfl present
  | cons c rest =>
    rw [fgetsLength]
    split
    · exact Nat.one_pos
    · exact Nat.succ_pos _

/-- The loop over `fgets`: of each piece `output << buffer` takes what is before the first zero. -/
def readPipe (text : Text) : Text :=
  if text = [] then []
  else
    (text.take (fgetsLength 4095 text)).takeWhile (· ≠ '\x00') ++
      readPipe (text.drop (fgetsLength 4095 text))
termination_by text.length
decreasing_by
  rename_i present
  have taken : 0 < fgetsLength 4095 text := fgetsLength_pos present
  have some : 0 < text.length := List.length_pos_iff.mpr present
  rw [List.length_drop]
  omega

/-- `executeWithProtoJS` and `executeWithNodeJS`, with the message of the one or the other. -/
def execute (message testFile : Text) : Outcome → TestResult
  | none => { test_name := testFile, passed := false, error_message := message }
  | some (output, status) =>
    { test_name := testFile, passed := status = 0, actual_output := readPipe output }

def executeWithProtoJS (testFile : Text) (outcome : Outcome) : TestResult :=
  execute "Failed to execute test with protoJS".toList testFile outcome

def executeWithNodeJS (testFile : Text) (outcome : Outcome) : TestResult :=
  execute "Failed to execute test with Node.js".toList testFile outcome

/-- Programs of which only what protoJS prints is asked for. -/
def printing (actual : Text) : Programs where
  node _ := []
  protojs _ := actual

/-- Where a call of `runTest` stands. `node` is the run of Node.js that the expected output is
from. -/
inductive Call
  | idle
  | missing (testFile : Text)
  | expecting (testFile expected : Text) (node : Outcome)
deriving DecidableEq, Repr

/-- A result that was returned, with the runs that it is about. -/
structure Report where
  result : TestResult
  node : Outcome
  protojs : Outcome
deriving DecidableEq, Repr

/-- The globals, and the calls of `runTest` under way. `origins` has for each entry of the cache
the run that its output is from. -/
structure Runner where
  enabled : Bool := false
  cache : Cache := []
  origins : List (Text × Outcome) := []
  calls : ℕ → Call := fun _ => .idle
  reports : List Report := []

inductive RunnerAction
  | setTestCacheEnabled (enabled : Bool)
  | clearTestCache
  | look (call : ℕ) (testFile : Text)
  /-- `executeWithNodeJS`, and the output goes into the cache. -/
  | executeNode (call : ℕ) (outcome : Outcome)
  /-- `executeWithProtoJS`, the comparison and the return. -/
  | executeProtoJS (call : ℕ) (outcome : Outcome)
deriving DecidableEq, Repr

namespace Runner

def setCall (s : Runner) (call : ℕ) (stands : Call) : Runner :=
  { s with calls := Function.update s.calls call stands }

def Enabled (s : Runner) : RunnerAction → Prop
  | .setTestCacheEnabled _ | .clearTestCache => True
  | .look call _ => s.calls call = .idle
  | .executeNode call _ => ∃ testFile, s.calls call = .missing testFile
  | .executeProtoJS call _ =>
    ∃ testFile expected node, s.calls call = .expecting testFile expected node

def next (s : Runner) : RunnerAction → Runner
  | .setTestCacheEnabled enabled => { s with enabled }
  | .clearTestCache => { s with cache := [], origins := [] }
  | .look call testFile =>
    let expected := lookup s.enabled s.cache testFile
    s.setCall call (if expected = [] then .missing testFile
      else .expecting testFile expected ((OrderedMap.find s.origins testFile).getD none))
  | .executeNode call outcome =>
    match s.calls call with
    | .missing testFile =>
      let expected := (executeWithNodeJS testFile outcome).actual_output
      { s with
        cache := store s.enabled s.cache testFile expected
        origins :=
          if s.enabled then OrderedMap.assign testFile outcome s.origins else s.origins }.setCall
        call (.expecting testFile expected outcome)
    | _ => s
  | .executeProtoJS call outcome =>
    match s.calls call with
    | .expecting testFile expected node =>
      let actual := (executeWithProtoJS testFile outcome).actual_output
      let report : Report :=
        { result := resultOf (printing actual) testFile expected, node, protojs := outcome }
      { s with reports := s.reports ++ [report] }.setCall call .idle
    | _ => s

end Runner

/-- The calls of `runTest` from one or more threads, with every outcome of the programs. -/
def runner : Machine Runner RunnerAction where
  initial := {}
  Enabled := Runner.Enabled
  next := Runner.next

/-! ### Runs that really agree -/

def Outcome.output (outcome : Outcome) : Text := (outcome.map Prod.fst).getD []

def Outcome.Succeeded (outcome : Outcome) : Prop := outcome.map Prod.snd = some 0

/-- What `runTest` reads of an output. -/
def Outcome.read (outcome : Outcome) : Text := readPipe outcome.output

/-- Both runs exited with 0, and their outputs are equal up to white space at their ends. -/
def Genuine (node protojs : Outcome) : Prop :=
  node.Succeeded ∧ protojs.Succeeded ∧ trim node.output = trim protojs.output

/-- What is read of two runs is equal up to white space at the end, although one of them failed, or
their outputs differ where they are not read. -/
def Mistaken (node protojs : Outcome) : Prop :=
  trim node.read = trim protojs.read ∧
    (¬node.Succeeded ∨ ¬protojs.Succeeded ∨ trim node.output ≠ trim protojs.output)

/-- The step compares no runs that can be mistaken. -/
def Runner.Unmistaken (s : Runner) : RunnerAction → Prop
  | .executeProtoJS call outcome =>
    ∀ testFile expected node, s.calls call = .expecting testFile expected node →
      ¬Mistaken node outcome
  | _ => True

variable {s t : Runner} {as : List RunnerAction} {a : RunnerAction} {testFile message : Text}
  {outcome node protojs : Outcome} {text : Text}

theorem readPipe_nil : readPipe [] = [] := by rw [readPipe, if_pos rfl]

/-- Without zero bytes the whole output is read. -/
theorem readPipe_eq_self (clean : '\x00' ∉ text) : readPipe text = text := by
  fun_induction readPipe text with
  | case1 => rfl
  | case2 text present ih =>
    have front : (text.take (fgetsLength 4095 text)).takeWhile (· ≠ '\x00') =
        text.take (fgetsLength 4095 text) := by
      rw [List.takeWhile_eq_self_iff]
      intro c member
      apply decide_eq_true
      rintro rfl
      exact clean (List.mem_of_mem_take member)
    rw [front, ih fun member => clean (List.mem_of_mem_drop member), List.take_append_drop]

theorem actual_output_execute :
    (execute message testFile outcome).actual_output = outcome.read := by
  cases outcome with
  | none => exact readPipe_nil.symm
  | some pair => rfl

/-- Without zero bytes only failures are mistaken. -/
theorem mistaken_iff_of_clean (cleanNode : '\x00' ∉ node.output)
    (cleanProtojs : '\x00' ∉ protojs.output) :
    Mistaken node protojs ↔
      trim node.output = trim protojs.output ∧ (¬node.Succeeded ∨ ¬protojs.Succeeded) := by
  rw [Mistaken, Outcome.read, Outcome.read, readPipe_eq_self cleanNode,
    readPipe_eq_self cleanProtojs]
  tauto

/-- A comparison is right exactly where nothing is mistaken. -/
theorem passed_imp_genuine_iff :
    ((resultOf (printing protojs.read) testFile node.read).passed = true → Genuine node protojs) ↔
      ¬Mistaken node protojs := by
  have passed : (resultOf (printing protojs.read) testFile node.read).passed = true ↔
      trim node.read = trim protojs.read := decide_eq_true_iff
  rw [passed, Genuine, Mistaken]
  tauto

/-! ### Where expected outputs are from -/

/-- Every expected output was read of the run it is said to be from. -/
structure Runner.Inv (s : Runner) : Prop where
  cache : ∀ testFile text, OrderedMap.find s.cache testFile = some text →
    ∃ node, OrderedMap.find s.origins testFile = some node ∧ text = node.read
  calls : ∀ call testFile expected node, s.calls call = .expecting testFile expected node →
    expected = node.read

theorem inv_initial : runner.initial.Inv := by
  constructor
  · intro testFile text found
    cases found
  · intro call testFile expected node stands
    cases stands

theorem Runner.Inv.setCall {call : ℕ} {stands : Call} (inv : s.Inv)
    (sound : ∀ testFile expected node, stands = .expecting testFile expected node →
      expected = node.read) : (s.setCall call stands).Inv := by
  refine ⟨inv.cache, ?_⟩
  intro other testFile expected node at_
  change Function.update s.calls call stands other = _ at at_
  rcases eq_or_ne other call with rfl | differ
  · rw [Function.update_self] at at_
    exact sound testFile expected node at_
  · rw [Function.update_of_ne differ] at at_
    exact inv.calls other testFile expected node at_

/-- What is found in the cache was read of the run it is said to be from. -/
theorem Runner.Inv.lookup_eq (inv : s.Inv) (found : lookup s.enabled s.cache testFile ≠ []) :
    lookup s.enabled s.cache testFile =
      ((OrderedMap.find s.origins testFile).getD none : Outcome).read := by
  rw [lookup] at found ⊢
  split at found
  · cases entry : OrderedMap.find s.cache testFile with
    | none =>
      rw [entry] at found
      exact absurd rfl found
    | some text =>
      obtain ⟨node, origin, same⟩ := inv.cache testFile text entry
      rw [origin, if_pos (by assumption)]
      exact same
  · exact absurd rfl found

/-- An entry goes into the cache together with its run. -/
theorem Runner.Inv.store (inv : s.Inv) :
    Runner.Inv { s with
      cache := Testing.store s.enabled s.cache testFile outcome.read
      origins :=
        if s.enabled then OrderedMap.assign testFile outcome s.origins else s.origins } := by
  refine ⟨?_, inv.calls⟩
  cases on : s.enabled with
  | false => exact inv.cache
  | true =>
    intro other text found
    simp only [Testing.store, if_true, OrderedMap.find_assign] at found ⊢
    split_ifs at found ⊢
    · cases found
      exact ⟨outcome, rfl, rfl⟩
    · exact inv.cache other text found

theorem Runner.Inv.next (inv : s.Inv) (enabled : s.Enabled a) : (s.next a).Inv := by
  cases a with
  | setTestCacheEnabled enabled => exact ⟨inv.cache, inv.calls⟩
  | clearTestCache =>
    refine ⟨?_, inv.calls⟩
    intro testFile text found
    cases found
  | look call testFile =>
    apply inv.setCall
    intro file expected node stands
    split_ifs at stands with absent
    cases stands
    exact inv.lookup_eq absent
  | executeNode call outcome =>
    obtain ⟨testFile, stands⟩ := enabled
    have read : (executeWithNodeJS testFile outcome).actual_output = outcome.read :=
      actual_output_execute
    simp only [Runner.next, stands, read]
    apply (inv.store).setCall
    intro file expected node here
    cases here
    rfl
  | executeProtoJS call outcome =>
    obtain ⟨testFile, expected, node, stands⟩ := enabled
    simp only [Runner.next, stands]
    refine Runner.Inv.setCall ?_ ?_
    · exact ⟨inv.cache, inv.calls⟩
    · intro file expected node here
      cases here

theorem inv_of_reachable (reachable : runner.Reachable s) : s.Inv :=
  reachable.invariant inv_initial fun _ _ _ enabled inv => inv.next enabled

/-! ### Runs of the runner -/

/-- Every test that was reported as passed did run, twice, and agreed. -/
def Runner.AllGenuine (s : Runner) : Prop :=
  ∀ report ∈ s.reports, report.result.passed = true → Genuine report.node report.protojs

/-- A comparison adds a report that is right where nothing is mistaken. -/
theorem allGenuine_next_iff (inv : s.Inv) (enabled : s.Enabled a) :
    (s.next a).AllGenuine ↔ s.AllGenuine ∧ s.Unmistaken a := by
  cases a with
  | setTestCacheEnabled enabled => exact (and_iff_left trivial).symm
  | clearTestCache => exact (and_iff_left trivial).symm
  | look call testFile => exact (and_iff_left trivial).symm
  | executeNode call outcome =>
    obtain ⟨testFile, stands⟩ := enabled
    simp only [Runner.next, stands]
    exact (and_iff_left trivial).symm
  | executeProtoJS call outcome =>
    obtain ⟨testFile, expected, node, stands⟩ := enabled
    have actual : (executeWithProtoJS testFile outcome).actual_output = outcome.read :=
      actual_output_execute
    have read := inv.calls call testFile expected node stands
    subst read
    have unmistaken : s.Unmistaken (.executeProtoJS call outcome) ↔ ¬Mistaken node outcome := by
      constructor
      · intro all
        exact all testFile _ node stands
      · intro one file text other here
        rw [stands] at here
        cases here
        exact one
    rw [unmistaken, ← @passed_imp_genuine_iff testFile]
    simp only [Runner.next, stands, actual, Runner.AllGenuine, Runner.setCall,
      List.forall_mem_append, List.forall_mem_singleton]

theorem allGenuine_iff (run : runner.Run runner.initial as t) :
    t.AllGenuine ↔ (runner.restrict Runner.Unmistaken).Run runner.initial as t := by
  rw [run.final_iff .initial fun s a reachable enabled =>
    allGenuine_next_iff (inv_of_reachable reachable) enabled]
  apply and_iff_right
  intro report none
  cases none

/-- In every run the tests that were reported as passed ran and agreed, if and only if no two runs
were compared that can be mistaken. -/
theorem passed_tests_genuine_iff (as : List RunnerAction) (t : Runner)
    (run : runner.Run runner.initial as t) :
    t.AllGenuine ↔ (runner.restrict Runner.Unmistaken).Run runner.initial as t :=
  allGenuine_iff run

/-- One test, with what becomes of the two programs. -/
def oneTest (node protojs : Outcome) : List RunnerAction :=
  [.look 0 ['a'], .executeNode 0 node, .executeProtoJS 0 protojs]

/-- What one test leads to. -/
def afterOneTest (node protojs : Outcome) : Runner :=
  (oneTest node protojs).foldl Runner.next {}

theorem run_oneTest (node protojs : Outcome) :
    runner.Run runner.initial (oneTest node protojs) (afterOneTest node protojs) :=
  .cons rfl (.cons ⟨['a'], rfl⟩ (.cons ⟨['a'], _, node, rfl⟩ (.nil _)))

theorem reports_oneTest (node protojs : Outcome) : (afterOneTest node protojs).reports =
    [{ result := resultOf (printing protojs.read) ['a'] node.read, node, protojs }] := by
  have expected : (executeWithNodeJS ['a'] node).actual_output = node.read :=
    actual_output_execute
  have actual : (executeWithProtoJS ['a'] protojs).actual_output = protojs.read :=
    actual_output_execute
  rw [← expected, ← actual]
  rfl

/-- Both programs print the same and exit well. -/
theorem passed_tests_genuine_same :
    (afterOneTest (some (['1'], 0)) (some (['1', '\n'], 0))).AllGenuine ↔
      (runner.restrict Runner.Unmistaken).Run runner.initial
        (oneTest (some (['1'], 0)) (some (['1', '\n'], 0)))
        (afterOneTest (some (['1'], 0)) (some (['1', '\n'], 0))) :=
  passed_tests_genuine_iff _ _ (run_oneTest _ _)

/-- Both programs fail without any output. -/
theorem not_passed_tests_genuine :
    ¬ ∀ (as : List RunnerAction) (t : Runner), runner.Run runner.initial as t →
      t.AllGenuine := by
  intro all
  have genuine := all _ _ (run_oneTest (some ([], 1)) (some ([], 1)))
  rw [Runner.AllGenuine, reports_oneTest, List.forall_mem_singleton] at genuine
  obtain ⟨exited, -, -⟩ := genuine (decide_eq_true rfl)
  have status : some (1 : ℤ) = some 0 := exited
  exact absurd status (by decide)

end ProtoJS.Testing
