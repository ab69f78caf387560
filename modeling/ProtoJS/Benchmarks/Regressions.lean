import ProtoJS.Benchmarks.CIGate

/-! # Regressions against the same results

A baseline keeps one time for a name, that of the last entry that counts. A suite that lists a
benchmark twice has two times for it, and both of them are compared with the last.
-/

namespace ProtoJS.Benchmarks

open Strings

variable {current baseline : List (BenchmarkResult ℚ)} {name : Text} {time lower upper : ℚ}

/-- The time recorded is that of an entry with no other of its name behind it that counts. -/
theorem recorded_eq_some_iff :
    recorded baseline name = some time ↔
      ∃ before last after, baseline = before ++ last :: after ∧ Succeeded last ∧
        last.name = name ∧ last.protojs_time_ms = time ∧
          ∀ r ∈ after, Succeeded r → r.name ≠ name := by
  rw [recorded, Option.map_eq_some_iff]
  constructor
  · rintro ⟨last, found, rfl⟩
    obtain ⟨counted, after, before, split, skipped⟩ := List.find?_eq_some_iff_append.mp found
    rw [decide_eq_true_eq] at counted
    refine ⟨before.reverse, last, after.reverse, ?_, ⟨counted.2.1, counted.2.2.not_ge⟩, counted.1,
      rfl, ?_⟩
    · rw [← List.reverse_reverse baseline, split]
      simp
    · intro r member succeeded same
      have skip := skipped r (List.mem_reverse.mp member)
      simp [same, succeeded.1, lt_of_not_ge succeeded.2] at skip
  · rintro ⟨before, last, after, rfl, succeeded, rfl, rfl, others⟩
    refine ⟨last, List.find?_eq_some_iff_append.mpr
      ⟨?_, after.reverse, before.reverse, ?_, ?_⟩, rfl⟩
    · simp [succeeded.1, lt_of_not_ge succeeded.2]
    · simp
    · intro r member
      have other := others r (List.mem_reverse.mp member)
      simp only [Bool.not_eq_true', decide_eq_false_iff_not]
      rintro ⟨same, success, positive⟩
      exact other ⟨success, positive.not_ge⟩ same

theorem recorded_pos (found : recorded baseline name = some time) : 0 < time := by
  obtain ⟨_, last, _, _, succeeded, _, rfl, _⟩ := recorded_eq_some_iff.mp found
  exact lt_of_not_ge succeeded.2

theorem factor_mono (le : lower ≤ upper) : factor lower ≤ factor upper := by
  have positive : (0 : ℚ) ≤ (100 : ℕ) := Nat.cast_nonneg 100
  exact add_le_add_right (div_le_div_of_nonneg_right le positive) 1

theorem mem_detectRegressions_iff :
    name ∈ detectRegressions current baseline upper ↔
      ∃ r ∈ current, Succeeded r ∧ r.name = name ∧ ∃ time, recorded baseline name = some time ∧
        time * factor upper < r.protojs_time_ms := by
  rw [detectRegressions, List.mem_filterMap]
  refine exists_congr fun r => and_congr_right fun _ => ?_
  rw [find_baselineTime]
  constructor
  · intro reported
    split at reported
    · exact absurd reported (by simp)
    · rename_i counted
      rw [not_or, Bool.not_eq_false] at counted
      split at reported
      · exact absurd reported (by simp)
      · rename_i time found
        split at reported
        · rename_i slower
          cases reported
          exact ⟨counted, rfl, time, found, slower⟩
        · exact absurd reported (by simp)
  · rintro ⟨succeeded, rfl, time, found, slower⟩
    have counted : ¬(r.success = false ∨ r.protojs_time_ms ≤ 0) := by
      rw [not_or, Bool.not_eq_false]
      exact succeeded
    rw [if_neg counted, found]
    exact if_pos slower

/-- No name has an earlier time beyond the threshold of its last one. -/
def WithinLastTimes (results : List (BenchmarkResult ℚ)) (thresholdPercent : ℚ) : Prop :=
  ∀ before r between last after, results = before ++ r :: (between ++ last :: after) →
    Succeeded r → Succeeded last → last.name = r.name →
      (∀ other ∈ after, Succeeded other → other.name ≠ r.name) →
        r.protojs_time_ms ≤ last.protojs_time_ms * factor thresholdPercent

/-- The last entry of a name is never a regression against itself. -/
theorem detectRegressions_self_iff {results : List (BenchmarkResult ℚ)} {thresholdPercent : ℚ}
    (nonneg : 0 ≤ thresholdPercent) :
    detectRegressions results results thresholdPercent = [] ↔
      WithinLastTimes results thresholdPercent := by
  rw [detectRegressions_eq_nil_iff]
  constructor
  · intro none before r between last after split succeeded counted same others
    have found : recorded results r.name = some last.protojs_time_ms := by
      rw [recorded_eq_some_iff]
      refine ⟨before ++ r :: between, last, after, ?_, counted, same, rfl, others⟩
      rw [split, List.append_assoc, List.cons_append]
    have member : r ∈ results := by
      rw [split]
      exact List.mem_append_right _ List.mem_cons_self
    exact le_of_not_gt (none r member succeeded _ found)
  · intro within r member succeeded time found
    obtain ⟨before, last, after, rfl, counted, same, rfl, others⟩ := recorded_eq_some_iff.mp found
    apply not_lt_of_ge
    rcases List.mem_append.mp member with earlier | later
    · obtain ⟨front, between, rfl⟩ := List.append_of_mem earlier
      apply within front r between last after _ succeeded counted same others
      rw [List.append_assoc, List.cons_append]
    · rcases List.mem_cons.mp later with rfl | behind
      · have one : 1 ≤ factor thresholdPercent := by
          have least := factor_mono nonneg
          rwa [factor, zero_div, add_zero] at least
        exact le_mul_of_one_le_right (recorded_pos found).le one
      · exact absurd rfl (others r behind succeeded)

/-- A higher threshold reports no more. -/
theorem mem_detectRegressions_of_le (le : lower ≤ upper)
    (reported : name ∈ detectRegressions current baseline upper) :
    name ∈ detectRegressions current baseline lower := by
  rw [mem_detectRegressions_iff] at reported ⊢
  obtain ⟨r, member, succeeded, same, time, found, slower⟩ := reported
  refine ⟨r, member, succeeded, same, time, found, lt_of_le_of_lt ?_ slower⟩
  exact mul_le_mul_of_nonneg_left (factor_mono le) (recorded_pos found).le

/-- Results have no regression against themselves, if and only if every earlier time of a name is
within the threshold of its last one. -/
theorem detectRegressions_self_and_antitone (current : List (BenchmarkResult ℚ)) :
    (∀ thresholdPercent : ℚ, 0 ≤ thresholdPercent →
      (detectRegressions current current thresholdPercent = [] ↔
        WithinLastTimes current thresholdPercent)) ∧
    ∀ (baseline : List (BenchmarkResult ℚ)) (lower upper : ℚ), lower ≤ upper →
      ∀ name ∈ detectRegressions current baseline upper,
        name ∈ detectRegressions current baseline lower := by
  constructor
  · intro thresholdPercent nonneg
    exact detectRegressions_self_iff nonneg
  · intro baseline lower upper le name reported
    exact mem_detectRegressions_of_le le reported

/-- A run of one benchmark. -/
def ranFor (name : String) (milliseconds : ℚ) : BenchmarkResult ℚ where
  name := name.toList
  protojs_time_ms := milliseconds
  nodejs_time_ms := 0
  speedup := 0
  memory_usage_bytes := 0
  success := true

/-- A benchmark listed twice, and faster the second time. -/
theorem not_detectRegressions_self :
    ¬ ∀ (results : List (BenchmarkResult ℚ)) (thresholdPercent : ℚ), 0 ≤ thresholdPercent →
      detectRegressions results results thresholdPercent = [] := by
  intro none
  have empty := none [ranFor "a" 10, ranFor "a" 5] 10 (by decide)
  exact absurd empty (by decide +kernel)

end ProtoJS.Benchmarks
