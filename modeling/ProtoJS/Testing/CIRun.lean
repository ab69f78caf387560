import ProtoJS.Benchmarks.CIGate
import ProtoJS.Testing.NodeJSTestRunner

/-! # The test gate

`runTestsForCI` runs the tests that a configuration file lists, reports on them and compares the
pass rate with a bound. A file lists the tests behind a name, one on a line, with blank lines and
comments between them.
-/

namespace ProtoJS.Testing

open Strings Benchmarks

structure TestCIRunResult where
  success : Bool := true
  report : Text := []
deriving DecidableEq, Repr

variable {ν : Type}

/-- `generateReport` in the text format, and how it prints a double. -/
def textReport (print : ν → Text) (report : CompatibilityReport ν) : Text :=
  "=== Node.js Compatibility Report ===\n\n".toList ++
    "Total Tests: ".toList ++ signedDecimal report.total_tests.toInt ++ ['\n'] ++
    "Passed: ".toList ++ signedDecimal report.passed_tests.toInt ++ ['\n'] ++
    "Failed: ".toList ++ signedDecimal report.failed_tests.toInt ++ ['\n'] ++
    "Pass Rate: ".toList ++ print report.pass_rate ++ "%\n\n".toList ++
    (if report.compatibility_issues = [] then []
      else "Compatibility Issues:\n".toList ++
        (report.compatibility_issues.flatMap fun issue => "  - ".toList ++ issue ++ ['\n']) ++
        ['\n']) ++
    (if report.recommendations = [] then []
      else "Recommendations:\n".toList ++
        report.recommendations.flatMap fun pair =>
          "  - ".toList ++ pair.1 ++ ": ".toList ++ pair.2 ++ ['\n'])

section Run

variable [Zero ν] [NatCast ν] [IntCast ν] [Mul ν] [Div ν] [LT ν] [DecidableLT ν] [LE ν]
  [DecidableLE ν]

/-- The file is read as the one of a suite of benchmarks is. -/
def runTestSuiteFromFile (programs : Programs) (enabled : Bool) (cache : Cache)
    (config : Option Text) : CompatibilityReport ν :=
  match config with
  | none => { total_tests := 0, pass_rate := 0 }
  | some config =>
    if suiteFiles config = [] then { total_tests := 0, pass_rate := 0 }
    else runTestSuite programs enabled cache (suiteFiles config)

/-- The result, and what is written to the report file if that can be opened. -/
def runTestsForCI (programs : Programs) (enabled : Bool) (cache : Cache) (print : ν → Text)
    (config : Option Text) (minPassRate : ν) (reportPath : Text) :
    TestCIRunResult × Option Text :=
  let report : CompatibilityReport ν := runTestSuiteFromFile programs enabled cache config
  if report.total_tests = 0 then
    ({ success := false, report := "No tests run (invalid config or empty suite)".toList }, none)
  else
    ({ success := decide (minPassRate ≤ report.pass_rate), report := textReport print report },
      if reportPath = [] then none else some (textReport print report))

end Run

/-- The tests that a file lists, if it can be read. -/
def listed (config : Option Text) : List Text := (config.map suiteFiles).getD []

/-- What protoJS prints is what is expected of the test, up to white space at the end. -/
def Agrees (programs : Programs) (enabled : Bool) (cache : Cache) (testFile : Text) : Prop :=
  trim (expectation programs enabled cache testFile) = trim (programs.protojs testFile)

instance (programs : Programs) (enabled : Bool) (cache : Cache) :
    DecidablePred (Agrees programs enabled cache) := fun _ =>
  inferInstanceAs (Decidable (trim _ = trim _))

/-- The pass rate that is computed for two counts. -/
def passRate [NatCast ν] [IntCast ν] [Mul ν] [Div ν] (passed total : ℕ) : ν :=
  ((passed : ℤ) : ν) / ((total : ℤ) : ν) * (100 : ℕ)

/-- A line that is taken for the path of a test as it is. -/
def TestLine (line : Text) : Prop :=
  line ≠ [] ∧ '\n' ∉ line ∧ line.head? ∉ [some ' ', some '\t', some '#'] ∧
    line.getLast? ∉ [some '\r', some ' ', some '\t']

instance : DecidablePred TestLine := fun _ => inferInstanceAs (Decidable (_ ∧ _ ∧ _ ∧ _))

/-- A configuration file. -/
def suiteText (name : Text) (testFiles : List Text) : Text :=
  (name :: testFiles).flatMap (· ++ ['\n'])

/-! ### The counts and the issues -/

variable {programs : Programs} {enabled : Bool} {cache : Cache} {print : ν → Text}
  {config : Option Text} {minPassRate : ν} {reportPath name line : Text} {testFiles : List Text}

/-- What is reported of a test that does not agree. -/
def issue (testFile : Text) : Text :=
  testFile ++ ": ".toList ++ "Output mismatch between Node.js and protoJS".toList

theorem passed_settledResult (testFile : Text) :
    (settledResult programs enabled cache testFile).passed =
      decide (Agrees programs enabled cache testFile) := rfl

theorem issue_of_not_agrees {testFile : Text} (differs : ¬Agrees programs enabled cache testFile) :
    (settledResult programs enabled cache testFile).test_name ++ ": ".toList ++
      (settledResult programs enabled cache testFile).error_message = issue testFile := by
  have failed : compareOutputs (expectation programs enabled cache testFile)
      (programs.protojs testFile) = false := decide_eq_false differs
  rw [settledResult, resultOf, issue, failed]
  rfl

/-- The tests are counted one by one, and those that do not agree are named. -/
theorem foldl_count (report : CompatibilityReport ν) (testFiles : List Text) :
    let counted := (testFiles.map (settledResult programs enabled cache)).foldl
      (fun (report : CompatibilityReport ν) result => report.count result.test_name result) report
    counted.total_tests = report.total_tests ∧
      counted.passed_tests = report.passed_tests +
        Int32.ofNat (testFiles.countP fun testFile => Agrees programs enabled cache testFile) ∧
      counted.compatibility_issues = report.compatibility_issues ++
        (testFiles.filter fun testFile => ¬Agrees programs enabled cache testFile).map issue := by
  induction testFiles generalizing report with
  | nil => simp
  | cons testFile testFiles ih =>
    obtain ⟨total, passed, issues⟩ := ih (report.count
      (settledResult programs enabled cache testFile).test_name
      (settledResult programs enabled cache testFile))
    rw [List.map_cons, List.foldl_cons]
    refine ⟨total.trans ?_, passed.trans ?_, issues.trans ?_⟩
    · rw [CompatibilityReport.count]
      split <;> rfl
    · by_cases agrees : Agrees programs enabled cache testFile
      · rw [CompatibilityReport.count, passed_settledResult, if_pos (decide_eq_true agrees),
          List.countP_cons_of_pos (by simpa using agrees), Int32.ofNat_add]
        grind
      · rw [CompatibilityReport.count, passed_settledResult, if_neg (by simpa using agrees),
          List.countP_cons_of_neg (by simpa using agrees)]
    · by_cases agrees : Agrees programs enabled cache testFile
      · rw [CompatibilityReport.count, passed_settledResult, if_pos (decide_eq_true agrees),
          List.filter_cons_of_neg (by simpa using agrees)]
      · rw [CompatibilityReport.count, passed_settledResult, if_neg (by simpa using agrees),
          List.filter_cons_of_pos (by simpa using agrees), List.map_cons,
          issue_of_not_agrees agrees, List.append_assoc, List.singleton_append]

theorem infix_textReport {report : CompatibilityReport ν} {issue : Text}
    (member : issue ∈ report.compatibility_issues) :
    "  - ".toList ++ issue ++ ['\n'] <:+: textReport print report := by
  obtain ⟨before, after, split⟩ := List.append_of_mem member
  have present : report.compatibility_issues ≠ [] := List.ne_nil_of_mem member
  have entry : "  - ".toList ++ issue ++ ['\n'] <:+: report.compatibility_issues.flatMap
      fun issue => "  - ".toList ++ issue ++ ['\n'] := by
    rw [split, List.flatMap_append, List.flatMap_cons]
    exact ⟨_, _, List.append_assoc ..⟩
  unfold textReport
  rw [if_neg present]
  exact entry.trans ((List.infix_append _ _ _).trans (List.infix_append _ _ _))

/-! ### The gate -/

section Gate

variable [Zero ν] [NatCast ν] [IntCast ν] [Mul ν] [Div ν] [LT ν] [DecidableLT ν] [LE ν]
  [DecidableLE ν]

theorem toInt_ofNat_pos {n : ℕ} (positive : 0 < n) (short : n < 2 ^ 31) :
    (0 : Int32) < Int32.ofNat n := by
  rw [Int32.lt_iff_toInt_lt, Int32.toInt_ofNat_of_lt short]
  simpa using positive

theorem ofNat_ne_zero {n : ℕ} (positive : 0 < n) (short : n < 2 ^ 31) : Int32.ofNat n ≠ 0 := by
  intro zero
  have before := toInt_ofNat_pos positive short
  rw [zero] at before
  exact Int32.lt_irrefl before

omit [LE ν] [DecidableLE ν] in
/-- What a report on a suite says. -/
theorem runTestSuite_counts (short : testFiles.length < 2 ^ 31) (present : testFiles ≠ []) :
    let report : CompatibilityReport ν := runTestSuite programs enabled cache testFiles
    report.total_tests = Int32.ofNat testFiles.length ∧
      report.pass_rate = passRate
        (testFiles.countP fun testFile => Agrees programs enabled cache testFile)
          testFiles.length ∧
      report.compatibility_issues =
        (testFiles.filter fun testFile => ¬Agrees programs enabled cache testFile).map issue := by
  intro report
  have summarized : report = summarize testFiles
      (testFiles.map (settledResult programs enabled cache)) := runTestSuite_eq_summarize testFiles
  obtain ⟨total, passed, issues⟩ := foldl_count { emptyReport ν testFiles with
      results := testFiles.map (settledResult programs enabled cache) } testFiles
  have few : (testFiles.countP fun testFile => Agrees programs enabled cache testFile) < 2 ^ 31 :=
    List.countP_le_length.trans_lt short
  have some_tests : (0 : Int32) < Int32.ofNat testFiles.length :=
    toInt_ofNat_pos (List.length_pos_of_ne_nil present) short
  rw [summarized, summarize]
  generalize List.foldl _ _ _ = counted at total passed issues ⊢
  have number : counted.total_tests.toInt = testFiles.length := by
    rw [total]
    exact Int32.toInt_ofNat_of_lt short
  have agreed : counted.passed_tests.toInt =
      (testFiles.countP fun testFile => Agrees programs enabled cache testFile) := by
    rw [passed, ← Int32.toInt_ofNat_of_lt few]
    exact congrArg Int32.toInt (Int32.zero_add _)
  refine ⟨total, ?_, issues.trans (List.nil_append _)⟩
  rw [CompatibilityReport.rate]
  change (if (0 : Int32) < counted.total_tests then _ else _) = _
  rw [if_pos (total ▸ some_tests), number, agreed, passRate]

omit [LE ν] [DecidableLE ν] in
theorem runTestSuiteFromFile_of_present (present : listed config ≠ []) :
    runTestSuiteFromFile (ν := ν) programs enabled cache config =
      runTestSuite programs enabled cache (listed config) := by
  cases config with
  | none => exact absurd rfl present
  | some config => exact if_neg present

omit [LE ν] [DecidableLE ν] in
theorem runTestSuiteFromFile_of_empty (empty : listed config = []) :
    runTestSuiteFromFile (ν := ν) programs enabled cache config =
      { total_tests := 0, pass_rate := 0 } := by
  cases config with
  | none => rfl
  | some config => exact if_pos empty

/-- A gate opens if the configuration lists a test and enough of the tests agree. -/
theorem success_runTestsForCI (short : (listed config).length < 2 ^ 31) :
    (runTestsForCI programs enabled cache print config minPassRate reportPath).1.success = true ↔
      listed config ≠ [] ∧ minPassRate ≤ passRate
        ((listed config).countP fun testFile => Agrees programs enabled cache testFile)
          (listed config).length := by
  by_cases present : listed config = []
  · rw [runTestsForCI, runTestSuiteFromFile_of_empty present]
    simp [present]
  · obtain ⟨total, rate, -⟩ := runTestSuite_counts (ν := ν) short present
    have tested : (runTestSuite (ν := ν) programs enabled cache (listed config)).total_tests ≠ 0 :=
      total ▸ ofNat_ne_zero (List.length_pos_of_ne_nil present) short
    rw [runTestsForCI, runTestSuiteFromFile_of_present present]
    simp only [if_neg tested, rate, decide_eq_true_iff, and_iff_right present, ne_eq]

/-- The report names a test that does not agree. -/
theorem issue_infix_report (short : (listed config).length < 2 ^ 31) {testFile : Text}
    (member : testFile ∈ listed config) (differs : ¬Agrees programs enabled cache testFile) :
    "  - ".toList ++ issue testFile ++ ['\n'] <:+:
      (runTestsForCI programs enabled cache print config minPassRate reportPath).1.report := by
  have present : listed config ≠ [] := List.ne_nil_of_mem member
  obtain ⟨total, -, issues⟩ := runTestSuite_counts (ν := ν) short present
  have tested : (runTestSuite (ν := ν) programs enabled cache (listed config)).total_tests ≠ 0 :=
    total ▸ ofNat_ne_zero (List.length_pos_of_ne_nil present) short
  have named : issue testFile ∈
      (runTestSuite (ν := ν) programs enabled cache (listed config)).compatibility_issues := by
    rw [issues]
    exact List.mem_map_of_mem (List.mem_filter.mpr ⟨member, decide_eq_true differs⟩)
  rw [runTestsForCI, runTestSuiteFromFile_of_present present]
  simp only [if_neg tested]
  exact infix_textReport named

end Gate

/-! ### The configuration -/

theorem trimLine_of_plain (plain : TestLine line) : trimLine line = line := by
  obtain ⟨-, -, first, last⟩ := plain
  have kept : line.rdropWhile (fun c => c = '\r' || c = ' ' || c = '\t') = line := by
    rw [List.rdropWhile_eq_self_iff]
    intro present blank
    rw [List.getLast?_eq_some_getLast present] at last
    simp_all
  rw [trimLine, kept, List.dropWhile_eq_self_iff]
  intro positive blank
  rw [List.head?_eq_getElem?, List.getElem?_eq_getElem positive] at first
  simp_all

theorem lines_suiteText (clean : ∀ line ∈ testFiles, '\n' ∉ line) :
    lines '\n' (testFiles.flatMap (· ++ ['\n'])) = testFiles := by
  induction testFiles with
  | nil => exact lines_nil
  | cons testFile testFiles ih =>
    obtain ⟨here, there⟩ := List.forall_mem_cons.mp clean
    rw [List.flatMap_cons, List.append_assoc, List.singleton_append, lines_append here, ih there]

/-- A file lists the tests that were written to it. -/
theorem suiteFiles_suiteText (plain : ∀ line ∈ name :: testFiles, TestLine line) :
    suiteFiles (suiteText name testFiles) = testFiles := by
  have trimmed : (name :: testFiles).map trimLine = name :: testFiles :=
    List.map_congr_left (fun line member => trimLine_of_plain (plain line member)) |>.trans
      (List.map_id _)
  have kept : (name :: testFiles).filter (fun line => line ≠ [] ∧ line.head? ≠ some '#') =
      name :: testFiles := by
    rw [List.filter_eq_self]
    intro line member
    obtain ⟨present, -, first, -⟩ := plain line member
    simp_all
  rw [suiteFiles, suiteText, lines_suiteText fun line member => (plain line member).2.1, trimmed,
    kept, List.tail_cons]

/-! ### The gate of a configuration -/

/-- What rates of counts are in doubles: all of `n` is 100, and less than `n` is less. -/
structure Rated (ν : Type) [NatCast ν] [IntCast ν] [Mul ν] [Div ν] [LE ν] : Prop where
  whole : ∀ n : ℕ, 0 < n → n < 2 ^ 31 → ((100 : ℕ) : ν) ≤ passRate n n
  short : ∀ m n : ℕ, m < n → n < 2 ^ 31 → ¬((100 : ℕ) : ν) ≤ passRate m n

theorem rated_rat : Rated ℚ where
  whole n positive _ := by
    rw [passRate, div_self (by exact_mod_cast positive.ne')]
    norm_num
  short m n fewer _ := by
    have positive : (0 : ℚ) < n := by exact_mod_cast (Nat.zero_le m).trans_lt fewer
    have less : (m : ℚ) < n := by exact_mod_cast fewer
    rw [passRate, not_le]
    have ratio : ((m : ℤ) : ℚ) / ((n : ℤ) : ℚ) < 1 := by
      rw [div_lt_one (by exact_mod_cast positive)]
      exact_mod_cast less
    calc ((m : ℤ) : ℚ) / ((n : ℤ) : ℚ) * (100 : ℕ) < 1 * (100 : ℕ) := by gcongr
      _ = (100 : ℕ) := one_mul _

variable (programs enabled cache print minPassRate reportPath) in
/-- A gate opens if enough of the tests agree, and one that asks for all of them opens if all do.
Its report names every test that does not. -/
theorem runTestsForCI_iff [Zero ν] [NatCast ν] [IntCast ν] [Mul ν] [Div ν] [LT ν] [DecidableLT ν]
    [LE ν] [DecidableLE ν] (rated : Rated ν) (plain : ∀ line ∈ name :: testFiles, TestLine line)
    (short : testFiles.length < 2 ^ 31) :
    ((runTestsForCI programs enabled cache print (some (suiteText name testFiles)) minPassRate
        reportPath).1.success = true ↔ testFiles ≠ [] ∧ minPassRate ≤ passRate
          (testFiles.countP fun testFile => Agrees programs enabled cache testFile)
            testFiles.length) ∧
      ((runTestsForCI programs enabled cache print (some (suiteText name testFiles))
        ((100 : ℕ) : ν) reportPath).1.success = true ↔
          testFiles ≠ [] ∧ ∀ testFile ∈ testFiles, Agrees programs enabled cache testFile) ∧
      ∀ testFile ∈ testFiles, ¬Agrees programs enabled cache testFile →
        "  - ".toList ++ issue testFile ++ ['\n'] <:+:
          (runTestsForCI programs enabled cache print (some (suiteText name testFiles)) minPassRate
            reportPath).1.report := by
  have same : listed (some (suiteText name testFiles)) = testFiles := suiteFiles_suiteText plain
  have short' : (listed (some (suiteText name testFiles))).length < 2 ^ 31 := by rwa [same]
  refine ⟨?_, ?_, ?_⟩
  · rw [success_runTestsForCI short', same]
  · rw [success_runTestsForCI short', same]
    refine and_congr_right fun present => ?_
    have positive := List.length_pos_of_ne_nil present
    constructor
    · intro enough testFile member
      have all : ¬testFiles.countP (fun testFile => Agrees programs enabled cache testFile) <
          testFiles.length := fun fewer => rated.short _ _ fewer short enough
      have every := List.countP_eq_length.mp (List.countP_le_length.antisymm (not_lt.mp all))
      exact of_decide_eq_true (every testFile member)
    · intro every
      rw [List.countP_eq_length.mpr fun testFile member => decide_eq_true (every testFile member)]
      exact rated.whole _ positive short
  · intro testFile member differs
    exact issue_infix_report short' (same.symm ▸ member) differs

/-- Of two tests, protoJS prints the wrong number in the second. -/
theorem runTestsForCI_iff_second :
    let programs : Programs :=
      { node := fun _ => "1\n".toList
        protojs := fun testFile => if testFile = "b.js".toList then "2".toList else "1".toList }
    let config := some (suiteText "suite".toList ["a.js".toList, "b.js".toList])
    (runTestsForCI programs true [] (fun _ : ℚ => "?".toList) config 50 []).1.success = true ∧
      ¬(runTestsForCI programs true [] (fun _ : ℚ => "?".toList) config ((100 : ℕ) : ℚ)
        []).1.success = true ∧
      "  - b.js: Output mismatch between Node.js and protoJS\n".toList <:+:
        (runTestsForCI programs true [] (fun _ : ℚ => "?".toList) config 50 []).1.report := by
  intro programs config
  have plain : ∀ line ∈ "suite".toList :: ["a.js".toList, "b.js".toList], TestLine line := by decide
  obtain ⟨enough, all, named⟩ := runTestsForCI_iff programs true [] (fun _ : ℚ => "?".toList) 50 []
    rated_rat plain (by decide)
  have differs : ¬Agrees programs true [] "b.js".toList := by decide
  have one : ["a.js".toList, "b.js".toList].countP
      (fun testFile => Agrees programs true [] testFile) = 1 := by decide
  refine ⟨enough.mpr ⟨List.cons_ne_nil _ _, ?_⟩, fun opened => ?_, ?_⟩
  · rw [one, passRate]
    norm_num
  · exact differs ((all.mp opened).2 _ (by simp))
  · have line : "  - b.js: Output mismatch between Node.js and protoJS\n".toList =
        "  - ".toList ++ issue "b.js".toList ++ ['\n'] := by simp [issue]
    rw [line]
    exact named _ (by simp) differs

end ProtoJS.Testing
