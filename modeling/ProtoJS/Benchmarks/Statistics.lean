import ProtoJS.Benchmarks.CIGate
import ProtoJS.Machine.OrderStatistics

/-! # Statistics of repeated runs

`computeStats` summarises the times of the runs of a benchmark. Minimum, maximum and median are
read off a sorted copy; the mean is summed in the order of the runs.
-/

namespace ProtoJS.Benchmarks

open Strings

structure BenchmarkStats (ν : Type) [Zero ν] where
  mean_ms : ν := 0
  median_ms : ν := 0
  stddev_ms : ν := 0
  min_ms : ν := 0
  max_ms : ν := 0
  iterations : ℕ := 0
deriving DecidableEq, Repr

variable {ν : Type} [Field ν] [LinearOrder ν] {sqrt : ν → ν} {samples other : List ν}

/-- `(samples.size() % 2 == 1) ? sorted[mid] : (sorted[mid - 1] + sorted[mid]) / 2.0`. -/
def median (sorted : List ν) : ν :=
  let mid := sorted.length / 2
  if sorted.length % 2 = 1 then sorted.getD mid 0
  else (sorted.getD (mid - 1) 0 + sorted.getD mid 0) / 2

/-- The loop that adds up the squared distances from the mean. -/
def sqSum (mean : ν) (samples : List ν) : ν :=
  samples.foldl (fun sqSum v => sqSum + (v - mean) * (v - mean)) 0

def computeStats (sqrt : ν → ν) (samples : List ν) : BenchmarkStats ν :=
  if samples = [] then {}
  else
    let sorted := samples.insertionSort (· ≤ ·)
    let mean_ms : ν := samples.foldl (· + ·) 0 / samples.length
    { iterations := samples.length
      min_ms := sorted.getD 0 0
      max_ms := sorted.getD (sorted.length - 1) 0
      mean_ms
      median_ms := median sorted
      stddev_ms :=
        if 1 < samples.length then sqrt (sqSum mean_ms samples / ((samples.length - 1 : ℕ) : ν))
        else 0 }

/-- The result of repeated runs: with the statistics of the runs that succeeded. -/
structure RepeatedResult (ν : Type) [Zero ν] extends BenchmarkResult ν where
  has_stats : Bool := false
  median_ms : ν := 0
  stddev_ms : ν := 0
  min_ms : ν := 0
  max_ms : ν := 0
  iterations_run : ℕ := 0
deriving DecidableEq, Repr

/-- The times of the runs that succeeded, in their order. -/
def successfulRuns (env : Environment ν) (benchmarkFile : Text) (iterations : ℕ) : List ν :=
  ((List.range iterations).map fun i =>
    executeBenchmark env i benchmarkFile "protojs".toList).filter (0 < ·)

def runBenchmarkRepeated (sqrt : ν → ν) (env : Environment ν) (benchmarkFile : Text)
    (iterations : ℕ) : RepeatedResult ν :=
  let result : RepeatedResult ν :=
    { env.initial 0 with name := benchmarkFile, success := false, error_message := [] }
  if env.good benchmarkFile = false then
    { result with error_message := "Benchmark file not found: ".toList ++ benchmarkFile }
  else
    let samples := successfulRuns env benchmarkFile (if iterations = 0 then 1 else iterations)
    if samples = [] then { result with error_message := "All runs failed".toList }
    else
      let stats := computeStats sqrt samples
      { result with
        protojs_time_ms := stats.mean_ms
        has_stats := true
        median_ms := stats.median_ms
        stddev_ms := stats.stddev_ms
        min_ms := stats.min_ms
        max_ms := stats.max_ms
        iterations_run := samples.length
        success := true
        memory_usage_bytes := (env.memory 0).2 }

/-- A summary of samples: the extremes are two of them with the mean and the median between them,
and the median has half of the samples on either side. -/
structure Summarizes (stats : BenchmarkStats ν) (samples : List ν) : Prop where
  min_mem : stats.min_ms ∈ samples
  max_mem : stats.max_ms ∈ samples
  min_le_median : stats.min_ms ≤ stats.median_ms
  median_le_max : stats.median_ms ≤ stats.max_ms
  min_le_mean : stats.min_ms ≤ stats.mean_ms
  mean_le_max : stats.mean_ms ≤ stats.max_ms
  half_le_median : samples.length ≤ 2 * samples.countP (· ≤ stats.median_ms)
  half_ge_median : samples.length ≤ 2 * samples.countP (stats.median_ms ≤ ·)

/-! ### The order of the samples -/

omit [Field ν] in
theorem insertionSort_eq_of_perm (perm : other.Perm samples) :
    other.insertionSort (· ≤ ·) = samples.insertionSort (· ≤ ·) := by
  apply List.Perm.eq_of_sortedLE List.sortedLE_insertionSort List.sortedLE_insertionSort
  exact (List.perm_insertionSort _ _).trans (perm.trans (List.perm_insertionSort _ _).symm)

omit [LinearOrder ν] in
theorem sqSum_eq_of_perm {mean : ν} (perm : other.Perm samples) :
    sqSum mean other = sqSum mean samples := by
  have commutes : RightCommutative fun sqSum v : ν => sqSum + (v - mean) * (v - mean) :=
    ⟨fun sqSum v w => add_right_comm sqSum _ _⟩
  exact perm.foldl_eq 0

/-- The sums of both loops and the sorted copy are those of the samples in any order. -/
theorem computeStats_eq_of_perm (sqrt : ν → ν) (perm : other.Perm samples) :
    computeStats sqrt other = computeStats sqrt samples := by
  have sum : other.foldl (· + ·) 0 = samples.foldl (· + ·) 0 := by
    rw [← List.sum_eq_foldl, ← List.sum_eq_foldl, perm.sum_eq]
  have empty : other = [] ↔ samples = [] := by
    rw [← List.length_eq_zero_iff, perm.length_eq, List.length_eq_zero_iff]
  simp only [computeStats, empty, insertionSort_eq_of_perm perm, sum, perm.length_eq,
    sqSum_eq_of_perm perm]

/-! ### The sorted copy -/

section Median

variable [IsStrictOrderedRing ν] {sorted : List ν}

/-- The median lies between the elements of two neighbouring places, or is the element of one: the
lower has half of the list up to it, and the upper has half of the list from it on. -/
theorem median_between (ordered : sorted.SortedLE) (nonempty : sorted ≠ []) :
    ∃ lower upper, ∃ (inside : lower < sorted.length) (bound : upper < sorted.length),
      sorted.length ≤ 2 * (lower + 1) ∧ 2 * upper ≤ sorted.length ∧
        sorted[lower] ≤ median sorted ∧ median sorted ≤ sorted[upper] := by
  have positive : 0 < sorted.length := List.length_pos_iff.mpr nonempty
  by_cases odd : sorted.length % 2 = 1
  · have inside : sorted.length / 2 < sorted.length := by omega
    have middle : median sorted = sorted[sorted.length / 2] := by
      rw [median, if_pos odd, List.getD_eq_getElem _ _ inside]
    refine ⟨sorted.length / 2, sorted.length / 2, inside, inside, by omega, by omega, ?_, ?_⟩
    · exact middle.ge
    · exact middle.le
  · have inside : sorted.length / 2 - 1 < sorted.length := by omega
    have bound : sorted.length / 2 < sorted.length := by omega
    have middle :
        median sorted = (sorted[sorted.length / 2 - 1] + sorted[sorted.length / 2]) / 2 := by
      rw [median, if_neg odd, List.getD_eq_getElem _ _ inside, List.getD_eq_getElem _ _ bound]
    have le : sorted[sorted.length / 2 - 1] ≤ sorted[sorted.length / 2] :=
      ordered.getElem_le_getElem_of_le (by omega)
    refine ⟨sorted.length / 2 - 1, sorted.length / 2, inside, bound, by omega, by omega, ?_, ?_⟩
    · rw [middle, le_div_iff₀ two_pos, mul_two]
      exact add_le_add_right le _
    · rw [middle, div_le_iff₀ two_pos, mul_two]
      exact add_le_add_left le _

end Median

variable [IsStrictOrderedRing ν]

theorem summarizes_computeStats (sqrt : ν → ν) (nonempty : samples ≠ []) :
    Summarizes (computeStats sqrt samples) samples := by
  obtain ⟨sorted, copy⟩ : ∃ sorted, samples.insertionSort (· ≤ ·) = sorted := ⟨_, rfl⟩
  have perm : sorted.Perm samples := copy ▸ List.perm_insertionSort _ _
  have ordered : sorted.SortedLE := copy ▸ List.sortedLE_insertionSort
  have positive : 0 < sorted.length := by
    rw [perm.length_eq]
    exact List.length_pos_iff.mpr nonempty
  have least : (computeStats sqrt samples).min_ms = sorted[0] := by
    rw [computeStats, if_neg nonempty, copy]
    exact List.getD_eq_getElem _ _ positive
  have greatest : (computeStats sqrt samples).max_ms = sorted[sorted.length - 1] := by
    rw [computeStats, if_neg nonempty, copy]
    exact List.getD_eq_getElem _ _ (by omega)
  have middle : (computeStats sqrt samples).median_ms = median sorted := by
    rw [computeStats, if_neg nonempty, copy]
  have mean : (computeStats sqrt samples).mean_ms = samples.sum / samples.length := by
    rw [computeStats, if_neg nonempty, List.sum_eq_foldl]
  have bounds : ∀ x ∈ samples, sorted[0] ≤ x ∧ x ≤ sorted[sorted.length - 1] := by
    intro x member
    obtain ⟨i, inside, rfl⟩ := List.mem_iff_getElem.mp (perm.mem_iff.mpr member)
    exact ⟨ordered.getElem_le_getElem_of_le (by omega),
      ordered.getElem_le_getElem_of_le (by omega)⟩
  obtain ⟨lower, upper, inside, bound, low, high, above, below⟩ :=
    median_between ordered (List.length_pos_iff.mp positive)
  exact
    { min_mem := by rw [least]; exact perm.subset (List.getElem_mem _)
      max_mem := by rw [greatest]; exact perm.subset (List.getElem_mem _)
      min_le_median := by
        rw [least, middle]
        exact (ordered.getElem_le_getElem_of_le (Nat.zero_le _)).trans above
      median_le_max := by
        rw [greatest, middle]
        exact below.trans (ordered.getElem_le_getElem_of_le (by omega))
      min_le_mean := by
        rw [least, mean]
        exact OrderStatistics.le_mean nonempty fun x member => (bounds x member).1
      mean_le_max := by
        rw [greatest, mean]
        exact OrderStatistics.mean_le nonempty fun x member => (bounds x member).2
      half_le_median := by
        have counted := OrderStatistics.lt_countP_le ordered inside above
        rw [middle, ← perm.countP_eq, ← perm.length_eq]
        omega
      half_ge_median := by
        have counted := OrderStatistics.length_le_countP_ge ordered bound below
        rw [middle, ← perm.countP_eq, ← perm.length_eq]
        omega }

/-- The statistics of some samples summarize them, and are the same for every order of them. -/
theorem computeStats_consistent (sqrt : ℚ → ℚ) (samples : List ℚ) (nonempty : samples ≠ []) :
    Summarizes (computeStats sqrt samples) samples ∧
      ∀ other : List ℚ, other.Perm samples →
        computeStats sqrt other = computeStats sqrt samples :=
  ⟨summarizes_computeStats sqrt nonempty, fun _ perm => computeStats_eq_of_perm sqrt perm⟩

theorem computeStats_consistent_four :
    Summarizes (computeStats id [3, 1, 4, 1]) ([3, 1, 4, 1] : List ℚ) ∧
      ∀ other : List ℚ, other.Perm [3, 1, 4, 1] →
        computeStats id other = computeStats id [3, 1, 4, 1] :=
  computeStats_consistent id [3, 1, 4, 1] (by decide)

example : (computeStats id [3, 1, 4, 1] : BenchmarkStats ℚ).median_ms = 2 := by decide +kernel

/-- A benchmark that ran at all took time, by each of its statistics. -/
theorem runBenchmarkRepeated_positive {env : Environment ν} {benchmarkFile : Text} {iterations : ℕ}
    (success : (runBenchmarkRepeated sqrt env benchmarkFile iterations).success = true) :
    0 < (runBenchmarkRepeated sqrt env benchmarkFile iterations).min_ms ∧
      (runBenchmarkRepeated sqrt env benchmarkFile iterations).min_ms ≤
        (runBenchmarkRepeated sqrt env benchmarkFile iterations).protojs_time_ms := by
  obtain ⟨samples, runs⟩ : ∃ samples, successfulRuns env benchmarkFile
      (if iterations = 0 then 1 else iterations) = samples := ⟨_, rfl⟩
  rw [runBenchmarkRepeated, runs] at success ⊢
  dsimp only at success ⊢
  split_ifs at success ⊢ with missing failed
  have summary := summarizes_computeStats sqrt failed
  refine ⟨?_, summary.min_le_mean⟩
  have ran : ∀ x ∈ samples, 0 < x := by
    intro x member
    rw [← runs] at member
    exact of_decide_eq_true (List.mem_filter.mp member).2
  exact ran _ summary.min_mem

end ProtoJS.Benchmarks
