import ProtoJS.Benchmarks.Baseline
import ProtoJS.Machine.OrderedMap

/-! # The benchmark gate

`runForCI` runs the suite of a configuration file and compares the results with a baseline. The
gate succeeds when no benchmark has regressed, and a regression is a time: `detectRegressions`
looks only at benchmarks that succeeded now and that the baseline records as successful.
-/

namespace ProtoJS.Benchmarks

open Strings

variable {ν : Type} [Zero ν] [One ν] [Neg ν] [Add ν] [Mul ν] [Div ν] [NatCast ν] [LT ν]
  [DecidableLT ν] [LE ν] [DecidableLE ν]

/-- What a run of a suite meets: the files that can be opened, the exit status and the milliseconds
of each command, the memory before and after it, and what a result holds before it is filled. -/
structure Environment (ν : Type) where
  good : Text → Bool
  system : ℕ → Text → ℤ × ℕ
  memory : ℕ → UInt64 × UInt64
  initial : ℕ → BenchmarkResult ν

def executeBenchmark (env : Environment ν) (k : ℕ) (scriptPath runtime : Text) : ν :=
  let (result, duration) :=
    env.system k (runtime ++ ' ' :: scriptPath ++ " > /dev/null 2>&1".toList)
  if result ≠ 0 then -1 else (duration : ν)

/-- The benchmark that is the `k`-th of its suite. -/
def runBenchmark (env : Environment ν) (k : ℕ) (benchmarkFile : Text) : BenchmarkResult ν :=
  let result :=
    { env.initial k with name := benchmarkFile, success := false, error_message := [] }
  if env.good benchmarkFile = false then
    { result with error_message := "Benchmark file not found: ".toList ++ benchmarkFile }
  else
    let protojsTime := executeBenchmark env k benchmarkFile "protojs".toList
    let (memoryBefore, memoryAfter) := env.memory k
    let success := decide (0 < protojsTime)
    { result with
      protojs_time_ms := protojsTime
      memory_usage_bytes := if memoryBefore < memoryAfter then memoryAfter - memoryBefore else 0
      success
      error_message :=
        if success then [] else "Failed to execute benchmark with protoJS".toList }

def runSuite (env : Environment ν) (test_files : List Text) : List (BenchmarkResult ν) :=
  test_files.mapIdx (runBenchmark env)

/-- A line of a configuration file without the blanks around it. -/
def trimLine (line : Text) : Text :=
  (line.rdropWhile fun c => c = '\r' || c = ' ' || c = '\t').dropWhile fun c => c = ' ' || c = '\t'

/-- The files of a suite: all lines behind the first one that is neither empty nor a comment. -/
def suiteFiles (config : Text) : List Text :=
  (((lines '\n' config).map trimLine).filter fun line => line ≠ [] ∧ line.head? ≠ some '#').tail

def runSuiteFromFile (env : Environment ν) (config : Option Text) : List (BenchmarkResult ν) :=
  match config with
  | some config => runSuite env (suiteFiles config)
  | none => []

/-- `baselineTime`: the last entry of a name counts. -/
def baselineTime (baseline : List (BenchmarkResult ν)) : List (Text × ν) :=
  OrderedMap.assignAll [] ((baseline.filter fun r =>
    r.success ∧ (0 : ν) < r.protojs_time_ms).map fun r => (r.name, r.protojs_time_ms))

def factor (thresholdPercent : ν) : ν := 1 + thresholdPercent / (100 : ℕ)

def detectRegressions (current baseline : List (BenchmarkResult ν)) (thresholdPercent : ν) :
    List Text :=
  current.filterMap fun r =>
    if r.success = false ∨ r.protojs_time_ms ≤ (0 : ν) then none
    else match OrderedMap.find (baselineTime baseline) r.name with
      | none => none
      | some time =>
        if time * factor thresholdPercent < r.protojs_time_ms then some r.name else none

structure CIRunResult where
  success : Bool := true
  regressed : List Text := []
  report : Text := []
deriving DecidableEq, Repr

/-- `generateReport(results, "text")` and `std::to_string` of a double. -/
structure Reporting (ν : Type) where
  generateReport : List (BenchmarkResult ν) → Text
  toString : ν → Text

/-- What `runForCI` returns, and the files it writes. -/
structure CIRun where
  ci : CIRunResult
  savedBaseline : Option Text := none
  writtenReport : Option Text := none
deriving DecidableEq, Repr

def runForCI (env : Environment ν) (doubles : Doubles ν) (reporting : Reporting ν)
    (suiteConfig baselineFile : Option Text) (thresholdPercent : ν) (reportPath : Text) : CIRun :=
  let written (report : Text) := if reportPath = [] then none else some report
  let current := runSuiteFromFile env suiteConfig
  if current = [] then
    { ci :=
        { success := false
          report := "No benchmark results (invalid config or empty suite)".toList } }
  else
    let baseline := loadBaseline doubles baselineFile
    if baseline = [] then
      let report := "No baseline found; saving current as baseline.\n".toList ++
        reporting.generateReport current
      { ci := { success := true, report }
        savedBaseline := some (saveBaseline doubles current)
        writtenReport := written report }
    else
      let regressed := detectRegressions current baseline thresholdPercent
      let report := reporting.generateReport current ++
        if regressed = [] then []
        else "\n=== REGRESSIONS (threshold ".toList ++ reporting.toString thresholdPercent ++
          "%)\n".toList ++ regressed.flatMap fun name => "  - ".toList ++ name ++ ['\n']
      { ci := { success := regressed = [], regressed, report }
        writtenReport := written report }

/-! ### What the gate says -/

/-- A benchmark that ran, and whose time can be compared. -/
def Succeeded (r : BenchmarkResult ν) : Prop := r.success = true ∧ ¬ r.protojs_time_ms ≤ 0

/-- The time a baseline records for a name: that of its last successful entry. -/
def recorded (baseline : List (BenchmarkResult ν)) (name : Text) : Option ν :=
  (baseline.reverse.find? fun r =>
    r.name = name ∧ r.success = true ∧ (0 : ν) < r.protojs_time_ms).map (·.protojs_time_ms)

variable {env : Environment ν} {doubles : Doubles ν} {reporting : Reporting ν}
  {suiteConfig baselineFile : Option Text} {thresholdPercent : ν} {reportPath name : Text}
  {current baseline : List (BenchmarkResult ν)}

omit [Add ν] [Mul ν] [Div ν] [LE ν] [DecidableLE ν] in
/-- A result is successful if its file is there and its command takes time and exits well. -/
theorem success_runBenchmark {k : ℕ} {benchmarkFile : Text} :
    (runBenchmark env k benchmarkFile).success = true ↔ env.good benchmarkFile = true ∧
      0 < executeBenchmark env k benchmarkFile "protojs".toList := by
  rw [runBenchmark]
  split
  · rename_i missing
    exact iff_of_false Bool.false_ne_true fun both => Bool.false_ne_true (missing.symm.trans both.1)
  · rename_i there
    rw [Bool.not_eq_false] at there
    exact decide_eq_true_iff.trans (and_iff_right there).symm

omit [One ν] [Neg ν] [Add ν] [Mul ν] [Div ν] [NatCast ν] [LE ν] [DecidableLE ν] in
theorem find_baselineTime :
    OrderedMap.find (baselineTime baseline) name = recorded baseline name := by
  rw [baselineTime, OrderedMap.find_assignAll, OrderedMap.find, OrderedMap.find, List.find?_nil,
    Option.map_none, Option.or_none, ← List.map_reverse, ← List.filter_reverse, List.find?_map,
    List.find?_filter, recorded, Option.map_map]
  simp [Function.comp_def, and_comm]

omit [Neg ν] in
theorem detectRegressions_eq_nil_iff :
    detectRegressions current baseline thresholdPercent = [] ↔
      ∀ r ∈ current, Succeeded r → ∀ time, recorded baseline r.name = some time →
        ¬ time * factor thresholdPercent < r.protojs_time_ms := by
  rw [detectRegressions, List.filterMap_eq_nil_iff]
  refine forall₂_congr fun r _ => ?_
  rw [find_baselineTime, Succeeded]
  split
  · rename_i skipped
    refine iff_of_true rfl ?_
    rintro ⟨success, positive⟩
    rcases skipped with failed | slow
    · exact absurd (failed.symm.trans success) Bool.false_ne_true
    · exact absurd slow positive
  · rename_i counted
    rw [not_or, Bool.not_eq_false] at counted
    cases entry : recorded baseline r.name with
    | none => simp
    | some time => simp [counted]

/-- Against a baseline with entries the gate succeeds if and only if the suite has results, and
every benchmark that ran is within the threshold of what the baseline records of it. -/
theorem runForCI_success_iff (entries : loadBaseline doubles baselineFile ≠ []) :
    (runForCI env doubles reporting suiteConfig baselineFile thresholdPercent
        reportPath).ci.success = true ↔
      runSuiteFromFile env suiteConfig ≠ [] ∧
        ∀ r ∈ runSuiteFromFile env suiteConfig, Succeeded r →
          ∀ time, recorded (loadBaseline doubles baselineFile) r.name = some time →
            ¬ time * factor thresholdPercent < r.protojs_time_ms := by
  rw [← detectRegressions_eq_nil_iff, runForCI]
  split
  · rename_i empty
    simp [empty]
  · rename_i results
    rw [if_neg entries]
    simp [results]

/-- Whole numbers print as they are. -/
def plainReporting : Reporting ℤ where
  generateReport _ := []
  toString x := wholeNumbers.render x

/-- A suite of one benchmark that exits with a status after some milliseconds. -/
def running (status : ℤ) (milliseconds : ℕ) : Environment ℤ where
  good _ := true
  system _ _ := (status, milliseconds)
  memory _ := (0, 0)
  initial _ := timed ""

def oneBenchmark : Text := "suite\na.js\n".toList

def baselineOf (names : List String) : Text := saveBaseline wholeNumbers (names.map timed)

theorem runForCI_success_within :
    runSuiteFromFile (running 0 7) (some oneBenchmark) ≠ [] ∧
      ∀ r ∈ runSuiteFromFile (running 0 7) (some oneBenchmark), Succeeded r →
        ∀ time, recorded (loadBaseline wholeNumbers (some (baselineOf ["a.js"]))) r.name =
          some time → ¬ time * factor 100 < r.protojs_time_ms := by
  have gate : (runForCI (running 0 7) wholeNumbers plainReporting (some oneBenchmark)
      (some (baselineOf ["a.js"])) 100 []).ci.success = true := by decide
  exact (runForCI_success_iff (by decide)).mp gate

/-- A benchmark that has begun to fail passes the gate. -/
theorem not_failing_benchmark_gated :
    ¬ ∀ (env : Environment ℤ) (suiteConfig baselineFile : Option Text) (thresholdPercent : ℤ)
      (reportPath : Text),
      loadBaseline wholeNumbers baselineFile ≠ [] →
        (runForCI env wholeNumbers plainReporting suiteConfig baselineFile thresholdPercent
          reportPath).ci.success = true →
        ∀ r ∈ runSuiteFromFile env suiteConfig, ∀ time,
          recorded (loadBaseline wholeNumbers baselineFile) r.name = some time →
            r.success = true ∧ ¬ time * factor thresholdPercent < r.protojs_time_ms := by
  intro gated
  have failed := gated (running 1 7) (some oneBenchmark) (some (baselineOf ["a.js"])) 100 []
    (by decide) (by decide) (runBenchmark (running 1 7) 0 "a.js".toList) (by decide) 5 (by decide)
  exact absurd failed.1 (by decide)

end ProtoJS.Benchmarks
