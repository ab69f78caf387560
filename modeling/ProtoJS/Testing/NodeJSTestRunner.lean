import ProtoJS.Machine.OrderedMap
import ProtoJS.Strings.Extraction

/-! # The test runner

`runTestInternal` compares what the two runtimes print for a file. What Node.js prints may come
from a cache, which is only filled with what Node.js prints, so the output expected of a file is
the same at every moment of a run: the one the cache held at the start, or else Node's.
-/

namespace ProtoJS.Testing

open Strings

structure TestResult where
  test_name : Text := []
  passed : Bool := false
  error_message : Text := []
  expected_output : Text := []
  actual_output : Text := []
deriving DecidableEq, Repr

/-- A report; `ν` are the doubles. -/
structure CompatibilityReport (ν : Type) where
  total_tests : Int32
  passed_tests : Int32 := 0
  failed_tests : Int32 := 0
  pass_rate : ν
  results : List TestResult := []
  compatibility_issues : List Text := []
  recommendations : List (Text × Text) := []

/-- The outputs that `executeWithNodeJS` and `executeWithProtoJS` read for a file. -/
structure Programs where
  node : Text → Text
  protojs : Text → Text

/-- `g_expectedOutputCache`. -/
abbrev Cache := List (Text × Text)

/-- A text without the white space at its end. -/
def trim (s : Text) : Text :=
  s.rdropWhile fun c => c = ' ' || c = '\n' || c = '\r' || c = '\t'

def compareOutputs (expected actual : Text) : Bool := trim expected = trim actual

/-- What the cache has for a file, if `g_testCacheEnabled` is set. -/
def lookup (enabled : Bool) (cache : Cache) (testFile : Text) : Text :=
  if enabled then (OrderedMap.find cache testFile).getD [] else []

def store (enabled : Bool) (cache : Cache) (testFile expected : Text) : Cache :=
  if enabled then OrderedMap.assign testFile expected cache else cache

variable (programs : Programs) (enabled : Bool)

/-- The result of a file whose expected output is known. -/
def resultOf (testFile expected : Text) : TestResult :=
  let actual := programs.protojs testFile
  let passed := compareOutputs expected actual
  { test_name := testFile
    passed
    error_message :=
      if passed then [] else "Output mismatch between Node.js and protoJS".toList
    expected_output := expected
    actual_output := actual }

def runTestInternal (cache : Cache) (testFile : Text) : TestResult × Cache :=
  let expected := lookup enabled cache testFile
  if expected = [] then
    let expected := programs.node testFile
    (resultOf programs testFile expected, store enabled cache testFile expected)
  else (resultOf programs testFile expected, cache)

section Reports

variable {ν : Type} [Zero ν] [NatCast ν] [IntCast ν] [Mul ν] [Div ν] [LT ν] [DecidableLT ν]

/-- The report that both runs start from. -/
def emptyReport (ν : Type) [Zero ν] (testFiles : List Text) : CompatibilityReport ν where
  total_tests := Int32.ofNat testFiles.length
  pass_rate := 0

/-- Count a result, under the name that goes into the issue. -/
def CompatibilityReport.count (report : CompatibilityReport ν) (name : Text)
    (result : TestResult) : CompatibilityReport ν :=
  if result.passed then { report with passed_tests := report.passed_tests + 1 }
  else
    { report with
      failed_tests := report.failed_tests + 1
      compatibility_issues :=
        report.compatibility_issues ++ [name ++ ": ".toList ++ result.error_message] }

def priority (pass_rate : ν) : Text :=
  if pass_rate < (80 : ℕ) then "High - Significant compatibility issues detected".toList
  else if pass_rate < (95 : ℕ) then "Medium - Some compatibility issues need attention".toList
  else "Low - Good compatibility, minor issues remain".toList

/-- The pass rate and the recommendation. -/
def CompatibilityReport.rate (report : CompatibilityReport ν) : CompatibilityReport ν :=
  let pass_rate : ν :=
    if 0 < report.total_tests then
      (report.passed_tests.toInt : ν) / (report.total_tests.toInt : ν) * (100 : ℕ)
    else 0
  { report with pass_rate, recommendations := [("priority".toList, priority pass_rate)] }

/-- The body of the loop of `runTestSuite`. -/
def suiteStep : CompatibilityReport ν × Cache → Text → CompatibilityReport ν × Cache
  | (report, cache), testFile =>
    let (result, cache) := runTestInternal programs enabled cache testFile
    ({ report with results := report.results ++ [result] }.count testFile result, cache)

def runTestSuite (cache : Cache) (testFiles : List Text) : CompatibilityReport ν :=
  (testFiles.foldl (suiteStep programs enabled) (emptyReport ν testFiles, cache)).1.rate

/-- What `runTestSuiteParallel` makes of the results when the last batch is done. -/
def summarize (testFiles : List Text) (results : List TestResult) : CompatibilityReport ν :=
  (results.foldl (fun (report : CompatibilityReport ν) result =>
    report.count result.test_name result) { emptyReport ν testFiles with results }).rate

end Reports

/-! ### The expected output -/

/-- What is expected of a file, as long as the cache stands so. -/
def expectation (cache : Cache) (testFile : Text) : Text :=
  let cached := lookup enabled cache testFile
  if cached = [] then programs.node testFile else cached

variable {programs enabled} {cache : Cache} {testFile other : Text}

theorem expectation_of_lookup (cached : lookup enabled cache testFile ≠ []) :
    expectation programs enabled cache testFile = lookup enabled cache testFile := if_neg cached

theorem expectation_of_node (absent : lookup enabled cache testFile = []) :
    expectation programs enabled cache testFile = programs.node testFile := if_pos absent

/-- To store what Node.js prints where that is expected changes no expectation. -/
theorem expectation_store
    (settled : expectation programs enabled cache testFile = programs.node testFile) :
    expectation programs enabled (store enabled cache testFile (programs.node testFile)) =
      expectation programs enabled cache := by
  funext other
  cases enabled with
  | false => rfl
  | true =>
    rw [expectation, lookup, if_pos rfl, store, if_pos rfl, OrderedMap.find_assign]
    rcases eq_or_ne testFile other with rfl | differ
    · rw [settled, if_pos rfl, Option.getD_some]
      split
      · rfl
      · rfl
    · rw [if_neg differ]
      rfl

theorem runTestInternal_result :
    (runTestInternal programs enabled cache testFile).1 =
      resultOf programs testFile (expectation programs enabled cache testFile) := by
  rw [runTestInternal, expectation]
  split <;> rfl

theorem expectation_runTestInternal :
    expectation programs enabled (runTestInternal programs enabled cache testFile).2 =
      expectation programs enabled cache := by
  rw [runTestInternal]
  split
  · rename_i absent
    exact expectation_store (expectation_of_node absent)
  · rfl

/-! ### The sequential run -/

/-- The result of a file in a run that starts with a cache. -/
def settledResult (programs : Programs) (enabled : Bool) (cache : Cache) (testFile : Text) :
    TestResult :=
  resultOf programs testFile (expectation programs enabled cache testFile)

section SequentialRun

variable {ν : Type} [Zero ν] [NatCast ν] [IntCast ν] [Mul ν] [Div ν] [LT ν] [DecidableLT ν]

omit [Zero ν] [NatCast ν] [IntCast ν] [Mul ν] [Div ν] [LT ν] [DecidableLT ν] in
theorem count_results {report : CompatibilityReport ν} {results : List TestResult} {name : Text}
    {result : TestResult} :
    { report with results }.count name result = { report.count name result with results } := by
  rw [CompatibilityReport.count, CompatibilityReport.count]
  split <;> rfl

omit [Zero ν] [NatCast ν] [IntCast ν] [Mul ν] [Div ν] [LT ν] [DecidableLT ν] in
theorem foldl_suiteStep {report : CompatibilityReport ν} {testFiles : List Text} :
    (testFiles.foldl (suiteStep programs enabled) (report, cache)).1 =
      (testFiles.map (settledResult programs enabled cache)).foldl
        (fun (report : CompatibilityReport ν) result => report.count result.test_name result)
        { report with
          results := report.results ++ testFiles.map (settledResult programs enabled cache) } := by
  induction testFiles generalizing report cache with
  | nil => simp
  | cons testFile testFiles ih =>
    have result : (runTestInternal programs enabled cache testFile).1 =
        settledResult programs enabled cache testFile := runTestInternal_result
    have settled : settledResult programs enabled
        (runTestInternal programs enabled cache testFile).2 =
          settledResult programs enabled cache := by
      funext other
      rw [settledResult, settledResult, expectation_runTestInternal]
    have name : (settledResult programs enabled cache testFile).test_name = testFile := rfl
    rw [List.foldl_cons, suiteStep, ih, settled, result, List.map_cons, List.foldl_cons, name]
    simp only [count_results, List.append_assoc, List.singleton_append]

/-- The sequential run is summarized like the parallel one. -/
theorem runTestSuite_eq_summarize (testFiles : List Text) :
    runTestSuite (ν := ν) programs enabled cache testFiles =
      summarize testFiles (testFiles.map (settledResult programs enabled cache)) := by
  rw [runTestSuite, foldl_suiteStep, summarize]
  rfl

omit [Zero ν] [NatCast ν] [IntCast ν] [Mul ν] [Div ν] [LT ν] [DecidableLT ν] in
theorem counts_foldl {report : CompatibilityReport ν} {results : List TestResult} :
    let counted := results.foldl
      (fun (report : CompatibilityReport ν) result => report.count result.test_name result) report
    counted.total_tests = report.total_tests ∧
      counted.passed_tests + counted.failed_tests =
        report.passed_tests + report.failed_tests + Int32.ofNat results.length := by
  induction results generalizing report with
  | nil => simp
  | cons result results ih =>
    obtain ⟨total, sum⟩ := @ih (report.count result.test_name result)
    have one : (report.count result.test_name result).total_tests = report.total_tests ∧
        (report.count result.test_name result).passed_tests +
          (report.count result.test_name result).failed_tests =
            report.passed_tests + report.failed_tests + 1 := by
      rw [CompatibilityReport.count]
      split
      · exact ⟨rfl, by grind⟩
      · exact ⟨rfl, by grind⟩
    refine ⟨total.trans one.1, ?_⟩
    rw [List.foldl_cons, sum, one.2, List.length_cons, Int32.ofNat_add]
    grind

/-- The counts of a report add up to its total. -/
theorem passed_add_failed {testFiles : List Text} {results : List TestResult}
    (whole : results.length = testFiles.length) :
    (summarize (ν := ν) testFiles results).passed_tests +
      (summarize (ν := ν) testFiles results).failed_tests =
        (summarize (ν := ν) testFiles results).total_tests := by
  obtain ⟨total, sum⟩ := @counts_foldl ν { emptyReport ν testFiles with results } results
  refine Eq.trans sum (Eq.trans ?_ total.symm)
  rw [whole]
  simp [emptyReport]

end SequentialRun

end ProtoJS.Testing
