import ProtoJS.Benchmarks.ResultExport
import ProtoJS.Testing.NodeJSTestRunner

/-! # Reports as JSON

`exportToJSON` prints a comma behind the last member of a result, and the coverage report puts the
names between quotes as they are.
-/

namespace ProtoJS.Testing

open Strings Npm

/-- A result with the time that it took; `ν` are the doubles. -/
structure TimedResult (ν : Type) extends TestResult where
  execution_time_ms : ν

/-- A `CompatibilityReport`, as far as it is exported. -/
structure TimedReport (ν : Type) where
  total_tests : Int32
  passed_tests : Int32
  failed_tests : Int32
  pass_rate : ν
  results : List (TimedResult ν)

structure CoverageSummary (ν : Type) where
  total : Int32
  passed : Int32
  failed : Int32
  pass_rate : ν
  passed_tests : List Text
  failed_tests : List Text

variable {ν : Type} (doubles : PrintedDoubles ν)

/-- The object that is printed for a result. -/
def resultObject (result : TimedResult ν) : Text :=
  '{' :: '\n' :: field 6 "test_name".toList (quotedWord result.test_name ++ ',' ::
    '\n' :: field 6 "passed".toList (flag result.passed ++ ',' ::
    '\n' :: field 6 "execution_time_ms".toList (doubles.render result.execution_time_ms ++ ',' ::
    '\n' :: ((if result.error_message = [] then []
      else field 6 "error_message".toList (quotedWord result.error_message ++ [',', '\n'])) ++
    (List.replicate 4 ' ' ++ ['}'])))))

def exportToJSON (report : TimedReport ν) : Text :=
  '{' :: '\n' :: field 2 "total_tests".toList (signedDecimal report.total_tests.toInt ++ ',' ::
    '\n' :: field 2 "passed_tests".toList (signedDecimal report.passed_tests.toInt ++ ',' ::
    '\n' :: field 2 "failed_tests".toList (signedDecimal report.failed_tests.toInt ++ ',' ::
    '\n' :: field 2 "pass_rate".toList (doubles.render report.pass_rate ++ ',' ::
    '\n' :: field 2 "results".toList ('[' :: '\n' ::
      (listing 4 (resultObject doubles) report.results ++
        (List.replicate 2 ' ' ++ ']' :: '\n' :: '}' :: ['\n'])))))))

def getCoverageSummary (report : TimedReport ν) : CoverageSummary ν where
  total := report.total_tests
  passed := report.passed_tests
  failed := report.failed_tests
  pass_rate := report.pass_rate
  passed_tests := (report.results.filter (·.passed)).map (·.test_name)
  failed_tests := (report.results.filter (!·.passed)).map (·.test_name)

/-- The loop over names: `first` is whether the index is zero. -/
def nameLines (first : Bool) : List Text → Text
  | [] => []
  | name :: names =>
    (if first then [] else [',']) ++
      '\n' :: (List.replicate 4 ' ' ++ (quotedWord name ++ nameLines false names))

def coverageJson (s : CoverageSummary ν) : Text :=
  '{' :: '\n' :: field 2 "total".toList (signedDecimal s.total.toInt ++ ',' ::
    '\n' :: field 2 "passed".toList (signedDecimal s.passed.toInt ++ ',' ::
    '\n' :: field 2 "failed".toList (signedDecimal s.failed.toInt ++ ',' ::
    '\n' :: field 2 "pass_rate".toList (doubles.render s.pass_rate ++ ',' ::
    '\n' :: field 2 "passed_tests".toList ('[' :: (nameLines true s.passed_tests ++
      '\n' :: (List.replicate 2 ' ' ++ ']' :: ',' ::
    '\n' :: field 2 "failed_tests".toList ('[' :: (nameLines true s.failed_tests ++
      '\n' :: (List.replicate 2 ' ' ++ ']' :: '\n' :: '}' :: ['\n']))))))))))

def coverageText (s : CoverageSummary ν) : Text :=
  "=== Test Coverage Summary ===\n\nTotal: ".toList ++ signedDecimal s.total.toInt ++
    " | Passed: ".toList ++ signedDecimal s.passed.toInt ++
    " | Failed: ".toList ++ signedDecimal s.failed.toInt ++
    " | Pass Rate: ".toList ++ doubles.render s.pass_rate ++ "%\n\nPassed tests:\n".toList ++
    s.passed_tests.flatMap (fun name => "  - ".toList ++ name ++ ['\n']) ++
    "Failed tests:\n".toList ++
    s.failed_tests.flatMap fun name => "  - ".toList ++ name ++ ['\n']

/-- What is in the file afterwards, or `none` if it cannot be opened. -/
def exportCoverageReport (opened : Bool) (report : TimedReport ν) (format : Text) : Option Text :=
  if opened then
    let s := getCoverageSummary report
    some (if format = "json".toList then coverageJson doubles s else coverageText doubles s)
  else none

/-! ### What is exported -/

/-- What a result is as JSON. -/
def TimedResult.json (result : TimedResult ν) : JsonValue ℚ :=
  .object <| [("test_name".toList, .string result.test_name),
    ("passed".toList, .bool result.passed),
    ("execution_time_ms".toList, .number (doubles.value result.execution_time_ms))] ++
      Benchmarks.messageMember result.error_message

def TimedReport.json (report : TimedReport ν) : JsonValue ℚ :=
  .object [("total_tests".toList, .number report.total_tests.toInt),
    ("passed_tests".toList, .number report.passed_tests.toInt),
    ("failed_tests".toList, .number report.failed_tests.toInt),
    ("pass_rate".toList, .number (doubles.value report.pass_rate)),
    ("results".toList, .array (report.results.map fun result => result.json doubles))]

def CoverageSummary.json (s : CoverageSummary ν) : JsonValue ℚ :=
  .object [("total".toList, .number s.total.toInt), ("passed".toList, .number s.passed.toInt),
    ("failed".toList, .number s.failed.toInt),
    ("pass_rate".toList, .number (doubles.value s.pass_rate)),
    ("passed_tests".toList, .array (s.passed_tests.map .string)),
    ("failed_tests".toList, .array (s.failed_tests.map .string))]

/-- The comma behind the last member is left over. -/
theorem pasted_message (message : Text) :
    Pasted False (.moreMembers (Benchmarks.messageMember message)) (',' :: '\n' ::
      ((if message = [] then []
        else field 6 "error_message".toList (quotedWord message ++ [',', '\n'])) ++
      (List.replicate 4 ' ' ++ ['}']))) := by
  rw [Benchmarks.messageMember]
  split
  · exact .leftOver (white_newline 4) List.mem_cons_self
  · have left : Pasted False (.moreMembers []) (',' :: ('\n' :: List.replicate 4 ' ' ++ ['}'])) :=
      .leftOver (white_newline 4) List.mem_cons_self
    have pasted := Pasted.nextMember <|
      pasted_field (n := 6) (k := "error_message".toList) (by simp [Plain])
        (pasted_quotedWord message) left
    have whole : Pasted False _ _ := pasted.congr (by simp)
    simpa [field] using whole

theorem pasted_resultObject (result : TimedResult ν) :
    Pasted False (.value (result.json doubles)) (resultObject doubles result) := by
  have pasted := Pasted.object <|
    pasted_field (n := 6) (k := "test_name".toList) (by simp [Plain])
      (pasted_quotedWord result.test_name) <|
    .nextMember <| pasted_field (n := 6) (k := "passed".toList) (by simp [Plain])
      (pasted_flag result.passed) <|
    .nextMember <| pasted_field (n := 6) (k := "execution_time_ms".toList) (by simp [Plain])
      (pasted_double doubles result.execution_time_ms) (pasted_message result.error_message)
  exact pasted.congr (by simp)

/-- A report is read back from what is printed exactly if it has no results. -/
theorem standsFor_exportToJSON_iff (report : TimedReport ν) :
    StandsFor (exportToJSON doubles report) (report.json doubles) ↔
      report.results = [] ∧ doubles.isFinite report.pass_rate = true := by
  have pasted := Pasted.object <|
    pasted_field (n := 2) (k := "total_tests".toList) (by simp [Plain])
      (pasted_integer report.total_tests.toInt) <|
    .nextMember <| pasted_field (n := 2) (k := "passed_tests".toList) (by simp [Plain])
      (pasted_integer report.passed_tests.toInt) <|
    .nextMember <| pasted_field (n := 2) (k := "failed_tests".toList) (by simp [Plain])
      (pasted_integer report.failed_tests.toInt) <|
    .nextMember <| pasted_field (n := 2) (k := "pass_rate".toList) (by simp [Plain])
      (pasted_double doubles report.pass_rate) <|
    .nextMember <| pasted_lastField (n := 2) (m := 0) (k := "results".toList) (by simp [Plain])
      (pasted_listing (n := 4) 2 (pasted_resultObject doubles) report.results) .endObject
  have newline : White ['\n'] := white_newline 0
  have whole := pasted.standsFor_iff newline
  have none : (∀ result ∈ report.results, False) ↔ report.results = [] :=
    List.eq_nil_iff_forall_not_mem.symm
  rw [true_and, true_and, true_and, and_true, none, and_comm] at whole
  rw [← whole, exportToJSON, TimedReport.json]
  simp [field]

/-- The names in an array, each on a line of its own. By induction on what follows the first. -/
theorem pasted_names (name : Text) (names : List Text) :
    Pasted (∀ s ∈ name :: names, Plain s) (.elements ((name :: names).map .string))
      (nameLines true (name :: names) ++ '\n' :: (List.replicate 2 ' ' ++ [']'])) := by
  induction names generalizing name with
  | nil =>
    have only := Pasted.elements (white_newline 4) List.mem_cons_self (pasted_quotedWord name)
      (white_newline 2) .endArray
    rw [nameLines, nameLines, List.append_nil, if_pos rfl]
    exact only.congr (by simp)
  | cons next names ih =>
    have first := Pasted.elements (white_newline 4) List.mem_cons_self (pasted_quotedWord name)
      white_nil (.nextElement (ih next))
    have whole := first.congr List.forall_mem_cons.symm
    simpa [nameLines] using whole

theorem pasted_nameArray (names : List Text) :
    Pasted (∀ s ∈ names, Plain s) (.value (.array (names.map .string)))
      ('[' :: (nameLines true names ++ '\n' :: (List.replicate 2 ' ' ++ [']']))) := by
  cases names with
  | nil => exact (Pasted.emptyArray (white_newline 2)).congr (by simp)
  | cons name names => exact .array (pasted_names name names)

theorem standsFor_coverageJson_iff (s : CoverageSummary ν) :
    StandsFor (coverageJson doubles s) (s.json doubles) ↔
      (∀ name ∈ s.passed_tests, Plain name) ∧ (∀ name ∈ s.failed_tests, Plain name) ∧
        doubles.isFinite s.pass_rate = true := by
  have pasted := Pasted.object <|
    pasted_field (n := 2) (k := "total".toList) (by simp [Plain])
      (pasted_integer s.total.toInt) <|
    .nextMember <| pasted_field (n := 2) (k := "passed".toList) (by simp [Plain])
      (pasted_integer s.passed.toInt) <|
    .nextMember <| pasted_field (n := 2) (k := "failed".toList) (by simp [Plain])
      (pasted_integer s.failed.toInt) <|
    .nextMember <| pasted_field (n := 2) (k := "pass_rate".toList) (by simp [Plain])
      (pasted_double doubles s.pass_rate) <|
    .nextMember <| pasted_field (n := 2) (k := "passed_tests".toList) (by simp [Plain])
      (pasted_nameArray s.passed_tests) <|
    .nextMember <| pasted_lastField (n := 2) (m := 0) (k := "failed_tests".toList)
      (by simp [Plain]) (pasted_nameArray s.failed_tests) .endObject
  have newline : White ['\n'] := white_newline 0
  have whole := pasted.standsFor_iff newline
  rw [true_and, true_and, true_and, and_true, and_comm, and_assoc] at whole
  rw [← whole, coverageJson, CoverageSummary.json]
  simp [field]

/-- A coverage report is read back exactly if the names in it need no escapes. -/
theorem standsFor_exportCoverageReport_iff (report : TimedReport ν) (text : Text)
    (exported : exportCoverageReport doubles true report "json".toList = some text) :
    StandsFor text ((getCoverageSummary report).json doubles) ↔
      (∀ result ∈ report.results, Plain result.test_name) ∧
        doubles.isFinite report.pass_rate = true := by
  have same : coverageJson doubles (getCoverageSummary report) = text := Option.some.inj exported
  rw [← same, standsFor_coverageJson_iff, ← and_assoc]
  refine and_congr_left' ?_
  simp only [getCoverageSummary, List.forall_mem_map, List.mem_filter]
  constructor
  · rintro ⟨passed, failed⟩ result member
    cases verdict : result.passed with
    | true => exact passed result ⟨member, verdict⟩
    | false => exact failed result ⟨member, by rw [verdict]; rfl⟩
  · intro plain
    exact ⟨fun result member => plain result member.1, fun result member => plain result member.1⟩

/-- What is exported is the report itself exactly if it has no results, the coverage of it if no
name needs an escape, and benchmarks if no name does and no message is missing; and if the doubles
in it are finite. -/
theorem exports_standFor_iff :
    (∀ report : TimedReport ν, StandsFor (exportToJSON doubles report) (report.json doubles) ↔
      report.results = [] ∧ doubles.isFinite report.pass_rate = true) ∧
    (∀ report : TimedReport ν,
      (∃ text, exportCoverageReport doubles true report "json".toList = some text ∧
        StandsFor text ((getCoverageSummary report).json doubles)) ↔
      (∀ result ∈ report.results, Plain result.test_name) ∧
        doubles.isFinite report.pass_rate = true) ∧
    ∀ results : List (Benchmarks.BenchmarkResult ν),
      StandsFor (Benchmarks.exportToJSON doubles results) (Benchmarks.resultsJson doubles results) ↔
      ∀ result ∈ results, result.Printable doubles := by
  refine ⟨standsFor_exportToJSON_iff doubles, fun report => ?_,
    Benchmarks.standsFor_exportToJSON_iff doubles⟩
  rw [← standsFor_exportCoverageReport_iff doubles report _ rfl]
  constructor
  · rintro ⟨text, exported, stands⟩
    rwa [← Option.some.inj exported] at stands
  · intro stands
    exact ⟨_, rfl, stands⟩

/-- Doubles that are whole numbers. -/
def wholeDoubles : PrintedDoubles ℕ where
  isFinite _ := true
  render := decimal
  render_finite n _ := signedDecimal_natCast n ▸ isNumber_signedDecimal n
  render_notFinite _ infinite := by cases infinite

/-- The report on one test that passed. -/
def passedTest (name : Text) : TimedReport ℕ where
  total_tests := 1
  passed_tests := 1
  failed_tests := 0
  pass_rate := 100
  results := [{ test_name := name, passed := true, execution_time_ms := 3 }]

/-- A benchmark that failed. -/
def failedBenchmark : Benchmarks.BenchmarkResult ℕ where
  name := ['b']
  protojs_time_ms := 1
  nodejs_time_ms := 2
  speedup := 2
  memory_usage_bytes := 0
  success := false
  error_message := ['m']

/-- A test that passed gives a comma too many, a quote in its name ends the name, and a message of
a benchmark is lost. -/
theorem not_exports_standFor :
    ¬StandsFor (exportToJSON wholeDoubles (passedTest ['a']))
      ((passedTest ['a']).json wholeDoubles) ∧
    (∃ text, exportCoverageReport wholeDoubles true (passedTest ['"']) "json".toList = some text ∧
      ¬StandsFor text ((getCoverageSummary (passedTest ['"'])).json wholeDoubles)) ∧
    ¬StandsFor (Benchmarks.exportToJSON wholeDoubles [failedBenchmark])
      (Benchmarks.resultsJson wholeDoubles [failedBenchmark]) := by
  refine ⟨?_, ⟨_, rfl, ?_⟩, ?_⟩
  · rw [standsFor_exportToJSON_iff]
    rintro ⟨none, _⟩
    cases none
  · rw [standsFor_exportCoverageReport_iff _ _ _ rfl]
    rintro ⟨plain, _⟩
    exact (plain _ List.mem_cons_self '"' List.mem_cons_self).1 rfl
  · rw [Benchmarks.standsFor_exportToJSON_iff]
    intro printable
    have message := (printable _ List.mem_cons_self).2.2.2.2
    cases message

end ProtoJS.Testing
