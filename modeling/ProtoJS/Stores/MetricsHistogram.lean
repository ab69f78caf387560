import ProtoJS.Stores.Metrics

/-! # The buckets of a histogram

A value is counted in the first bucket that bounds it, which is the one with the least bound as the
bounds ascend. A value beyond the last bound is in no bucket, and is counted all the same.
-/

namespace ProtoJS.Metrics

section Buckets

variable {α : Type} [LinearOrder α]

/-- The bucket has the least bound that is not below the value. -/
def LeastBound (bounds : List α) (value : α) (i : ℕ) : Prop :=
  ∃ bound ∈ bounds[i]?, value ≤ bound ∧ ∀ other ∈ bounds, value ≤ other → bound ≤ other

instance (bounds : List α) (value : α) (i : ℕ) : Decidable (LeastBound bounds value i) :=
  inferInstanceAs (Decidable (∃ bound ∈ bounds[i]?, _))

/-- How many of the values are in each bucket. -/
def tally (bounds values : List α) : List ℤ :=
  (List.range bounds.length).map fun i => (values.countP (LeastBound bounds · i) : ℤ)

variable {bounds values : List α} {value : α} {i : ℕ}

theorem findIdx?_eq_some_iff (ascending : bounds.Pairwise (· < ·)) :
    bounds.findIdx? (value ≤ ·) = some i ↔ LeastBound bounds value i := by
  have below {j k : ℕ} (lt : j < k) (high : k < bounds.length) : bounds[j] < bounds[k] :=
    List.pairwise_iff_getElem.1 ascending j k _ high lt
  simp only [List.findIdx?_eq_some_iff_getElem, decide_eq_true_eq, LeastBound, Option.mem_def,
    List.getElem?_eq_some_iff]
  constructor
  · rintro ⟨inside, bounded, first⟩
    refine ⟨bounds[i], ⟨inside, rfl⟩, bounded, fun other member le => ?_⟩
    obtain ⟨k, high, rfl⟩ := List.getElem_of_mem member
    rcases lt_trichotomy k i with before | rfl | after
    · exact absurd le (first k before)
    · exact le_rfl
    · exact (below after high).le
  · rintro ⟨bound, ⟨inside, rfl⟩, bounded, least⟩
    refine ⟨inside, bounded, fun j before le => ?_⟩
    have lower := least bounds[j] (List.getElem_mem _) le
    exact absurd (below before inside) (not_lt.2 lower)

/-- A value has a bucket unless it is beyond all bounds. -/
theorem exists_leastBound_iff (ascending : bounds.Pairwise (· < ·)) :
    (∃ i, LeastBound bounds value i) ↔ ∃ bound ∈ bounds, value ≤ bound := by
  simp only [← findIdx?_eq_some_iff ascending, ← Option.isSome_iff_exists, List.findIdx?_isSome,
    List.any_eq_true, decide_eq_true_eq]

@[simp] theorem length_tally : (tally bounds values).length = bounds.length := by
  rw [tally, List.length_map, List.length_range]

theorem getElem_tally (inside : i < (tally bounds values).length) :
    (tally bounds values)[i] = values.countP (LeastBound bounds · i) := by
  simp only [tally, List.getElem_map, List.getElem_range]

/-- One more value is one more in its bucket. -/
theorem countInBucket_tally (ascending : bounds.Pairwise (· < ·)) :
    countInBucket value bounds (tally bounds values) = tally bounds (values ++ [value]) := by
  have bucket (j : ℕ) : LeastBound bounds value j ↔ bounds.findIdx? (value ≤ ·) = some j :=
    (findIdx?_eq_some_iff ascending).symm
  rw [countInBucket]
  rcases found : bounds.findIdx? (value ≤ ·) with _ | i
  · apply List.map_congr_left
    intro j _
    simp [bucket, found]
  · have inside : i < (tally bounds values).length := by
      rw [length_tally]
      exact (List.findIdx?_eq_some_iff_getElem.1 found).1
    apply List.ext_getElem
    · simp
    intro j _ _
    rcases eq_or_ne i j with rfl | other
    · have now : (tally bounds values).getD i 0 = values.countP (LeastBound bounds · i) := by
        rw [List.getD_eq_getElem _ _ inside, getElem_tally]
      simp only [List.getElem_set_self, now]
      simp [getElem_tally, bucket, found]
    · simp [getElem_tally, other, bucket, found]

theorem sum_countInBucket {counts : List ℤ} (length : counts.length = bounds.length) :
    (countInBucket value bounds counts).sum =
      counts.sum + if ∃ bound ∈ bounds, value ≤ bound then 1 else 0 := by
  rw [countInBucket]
  rcases found : bounds.findIdx? (value ≤ ·) with _ | i
  · have beyond : ¬∃ bound ∈ bounds, value ≤ bound := by
      simpa using List.findIdx?_eq_none_iff.1 found
    rw [if_neg beyond, add_zero]
  · obtain ⟨inside, bounded, -⟩ := List.findIdx?_eq_some_iff_getElem.1 found
    have bucket : ∃ bound ∈ bounds, value ≤ bound :=
      ⟨bounds[i], List.getElem_mem _, by simpa using bounded⟩
    rw [← length] at inside
    simp only [List.sum_set', inside, bucket, dif_pos, if_true, List.getD_eq_getElem]
    omega

/-- The values in the buckets are those that have one. -/
theorem sum_tally (ascending : bounds.Pairwise (· < ·)) :
    (tally bounds values).sum = values.countP fun value => ∃ bound ∈ bounds, value ≤ bound := by
  induction values using List.reverseRecOn with
  | nil => simp [tally]
  | append_singleton values value ih =>
    rw [← countInBucket_tally ascending, sum_countInBucket length_tally, ih, List.countP_append,
      List.countP_singleton]
    simp

/-- The counts add up to the number of values when each of these has a bucket. -/
theorem sum_tally_eq_length_iff (ascending : bounds.Pairwise (· < ·)) :
    (tally bounds values).sum = values.length ↔
      ∀ value ∈ values, ∃ bound ∈ bounds, value ≤ bound := by
  rw [sum_tally ascending, Nat.cast_inj, List.countP_eq_length]
  simp only [decide_eq_true_eq]

end Buckets

/-- The bounds that `getDefaultBuckets` lists. -/
def getDefaultBuckets : List ℚ := [0.1, 0.5, 1.0, 5.0, 10.0, 50.0, 100.0, 500.0, 1000.0]

theorem ascending_getDefaultBuckets : getDefaultBuckets.Pairwise (· < ·) := by
  unfold getDefaultBuckets
  norm_num

/-- A value has a default bucket up to 1000. -/
theorem exists_bound_getDefaultBuckets_iff {value : ℚ} :
    (∃ bound ∈ getDefaultBuckets, value ≤ bound) ↔ value ≤ 1000 := by
  have last : (1000.0 : ℚ) = 1000 := by norm_num
  constructor
  · rintro ⟨bound, member, le⟩
    have high : ∀ bound ∈ getDefaultBuckets, bound ≤ 1000 := by
      simp only [getDefaultBuckets, List.forall_mem_cons]
      norm_num
    exact le.trans (high bound member)
  · intro le
    exact ⟨1000.0, by simp [getDefaultBuckets], last ▸ le⟩

variable {η : Type} [DecidableEq η]

/-- Doubles are rationals, and an integer has the double with its value. -/
def rationalMetrics (stringHash : String → η) : Core ℚ η where
  stringHash := stringHash
  asDouble
    | .double value => value
    | .integer value => value
    | .string _ => 0
  defaultBuckets := getDefaultBuckets
  format _ := ""

/-- Calls of `recordHistogram` on one series. -/
def recordAll (core : Core ℚ η) (kind : MutexKind) (name : String) (labels : Labels ℚ η) :
    List ℚ → StoreCall ℚ η Unit
  | [] => pure ()
  | value :: values =>
    recordHistogram core kind name (.double value) labels >>= fun _ =>
      recordAll core kind name labels values

/-- What a histogram shows adds up to the values: the counts to the count, the values to the sum,
and each value is counted in the bucket with the least bound that is not below it. -/
structure AddsUp (values : List ℚ) (stats : HistogramStats ℚ) : Prop where
  count : ∃ counts ∈ stats.counts, stats.count = some counts.sum
  sum : stats.sum = some values.sum
  bucket : ∃ bounds ∈ stats.buckets, stats.counts = some (tally bounds values) ∧
    ∀ value ∈ values, ∃ i, LeastBound bounds value i

/-- The object of a series after these values. -/
def histogramOf (values : List ℚ) : HistogramStats ℚ where
  buckets := some getDefaultBuckets
  counts := some (tally getDefaultBuckets values)
  sum := some values.sum
  count := some values.length

/-- It adds up when no value is beyond the last bound. -/
theorem addsUp_histogramOf_iff {values : List ℚ} :
    AddsUp values (histogramOf values) ↔ ∀ value ∈ values, value ≤ 1000 := by
  have ascending := ascending_getDefaultBuckets
  constructor
  · rintro ⟨-, -, bounds, same, -, bucket⟩ value member
    cases same
    rw [← exists_bound_getDefaultBuckets_iff, ← exists_leastBound_iff ascending]
    exact bucket value member
  · intro small
    have bounded : ∀ value ∈ values, ∃ bound ∈ getDefaultBuckets, value ≤ bound :=
      fun value member => exists_bound_getDefaultBuckets_iff.2 (small value member)
    refine ⟨⟨_, rfl, ?_⟩, rfl, _, rfl, rfl, fun value member => ?_⟩
    · rw [(sum_tally_eq_length_iff ascending).2 bounded]
      rfl
    · exact (exists_leastBound_iff ascending).2 (bounded value member)

section Runs

variable {stringHash : String → η} {kind : MutexKind} {name : String} {labels : Labels ℚ η}
  {s : State ℚ η} {values : List ℚ}

omit [DecidableEq η] in
theorem emptyHistogram_eq : emptyHistogram (rationalMetrics stringHash) = histogramOf [] := by
  simp only [emptyHistogram, rationalMetrics, histogramOf, tally, List.countP_nil, List.map_const',
    List.length_range]
  rfl

/-- The series holds these values, or is new and there are none. -/
def Holds (stringHash : String → η) (name : String) (labels : Labels ℚ η) (s : State ℚ η)
    (values : List ℚ) : Prop :=
  (s.histogramsStorage.lookup (stringHash (makeKey name labels))).getD (histogramOf []) =
    histogramOf values

/-- One call adds its value. -/
theorem recordHistogram_holds (value : ℚ) (holds : Holds stringHash name labels s values) :
    ∃ after, recordHistogram (rationalMetrics stringHash) kind name (.double value) labels 0 s =
        some ((), after) ∧
      after.histogramsStorage.lookup (stringHash (makeKey name labels)) =
        some (histogramOf (values ++ [value])) := by
  have counted : countInBucket value getDefaultBuckets (tally getDefaultBuckets values) =
      tally getDefaultBuckets (values ++ [value]) :=
    countInBucket_tally ascending_getDefaultBuckets
  have stats : (s.histogramsStorage.lookup
      ((rationalMetrics stringHash).stringHash (makeKey name labels))).getD
        (emptyHistogram (rationalMetrics stringHash)) = histogramOf values := by
    rw [emptyHistogram_eq]
    exact holds
  simp only [recordHistogram, Call.withLock_free, Call.bind_apply, Call.get_apply,
    Call.modify_apply, Option.bind_some, stats]
  refine ⟨_, rfl, (AList.lookup_insert _).trans (congrArg some ?_)⟩
  simp only [histogramOf, rationalMetrics, Option.getD_some, counted, List.sum_append,
    List.sum_singleton, List.length_append, List.length_singleton, Nat.cast_add, Nat.cast_one]

/-- After some calls the series holds their values. -/
theorem recordAll_holds (more : List ℚ) (called : more ≠ [])
    (holds : Holds stringHash name labels s values) :
    ∃ after, recordAll (rationalMetrics stringHash) kind name labels more 0 s = some ((), after) ∧
      after.histogramsStorage.lookup (stringHash (makeKey name labels)) =
        some (histogramOf (values ++ more)) := by
  induction more generalizing s values with
  | nil => exact absurd rfl called
  | cons value rest ih =>
    obtain ⟨next, recorded, found⟩ := @recordHistogram_holds _ _ _ kind _ _ _ _ value holds
    have now : Holds stringHash name labels next (values ++ [value]) := by
      rw [Holds, found, Option.getD_some]
    rw [recordAll, Call.bind_apply, recorded, Option.bind_some]
    rcases eq_or_ne rest [] with rfl | more
    · exact ⟨next, rfl, found⟩
    · obtain ⟨after, ran, held⟩ := ih more now
      rw [List.append_assoc, List.singleton_append] at held
      exact ⟨after, ran, held⟩

theorem getHistogram_of_lookup
    (found : s.histogramsStorage.lookup (stringHash (makeKey name labels)) =
      some (histogramOf values)) :
    getHistogram (rationalMetrics stringHash) kind name labels 0 s =
      some (histogramOf values, s) := by
  have held : s.histogramsStorage.lookup
      ((rationalMetrics stringHash).stringHash (makeKey name labels)) =
        some (histogramOf values) := found
  simp only [getHistogram, Call.withLock_free, Call.bind_apply, Call.get_apply, Option.bind_some,
    Call.pure_apply, held, Option.getD_some]
  rfl

/-- The calls return, and the histogram that `getHistogram` then shows adds up. -/
def ShowsSum (stringHash : String → η) (kind : MutexKind) (name : String) (labels : Labels ℚ η)
    (s : State ℚ η) (values : List ℚ) : Prop :=
  ∃ after stats,
    recordAll (rationalMetrics stringHash) kind name labels values 0 s = some ((), after) ∧
    getHistogram (rationalMetrics stringHash) kind name labels 0 after = some (stats, after) ∧
    AddsUp values stats

theorem showsSum_iff (called : values ≠ []) (holds : Holds stringHash name labels s []) :
    ShowsSum stringHash kind name labels s values ↔ ∀ value ∈ values, value ≤ 1000 := by
  obtain ⟨after, ran, found⟩ := @recordAll_holds _ _ _ kind _ _ _ _ values called holds
  have shown := @getHistogram_of_lookup _ _ _ kind _ _ _ _ found
  rw [List.nil_append] at shown
  rw [← addsUp_histogramOf_iff]
  constructor
  · rintro ⟨after', stats, ran', shown', adds⟩
    rw [ran] at ran'
    cases ran'
    rw [shown] at shown'
    cases shown'
    exact adds
  · intro adds
    exact ⟨after, _, ran, shown, adds⟩

end Runs

/-- After every call on a new series its histogram adds up, exactly when no value is beyond the
last bound. -/
theorem showsSum_always_iff (stringHash : String → η) (kind : MutexKind) (name : String)
    (labels : Labels ℚ η) (s : State ℚ η)
    (new : s.histogramsStorage.lookup (stringHash (makeKey name labels)) = none)
    (values : List ℚ) :
    (∀ recorded, recorded ≠ [] → recorded <+: values →
      ShowsSum stringHash kind name labels s recorded) ↔ ∀ value ∈ values, value ≤ 1000 := by
  have holds : Holds stringHash name labels s [] := by rw [Holds, new, Option.getD_none]
  constructor
  · intro all value member
    have called := List.ne_nil_of_mem member
    exact (showsSum_iff called holds).1 (all values called (List.prefix_refl _)) value member
  · intro small recorded called initial
    exact (showsSum_iff called holds).2 fun value member => small value (initial.subset member)

theorem showsSum_two : ShowsSum id .plain "latency" none {} [1 / 2, 3] :=
  (showsSum_always_iff id .plain "latency" none {} rfl [1 / 2, 3]).mpr (by norm_num) _
    (List.cons_ne_nil _ _) (List.prefix_refl _)

/-- 2000 is in no bucket. -/
theorem not_showsSum_2000 : ¬ShowsSum id .plain "latency" none {} [2000] := by
  have new : Holds id "latency" none {} [] := rfl
  rw [showsSum_iff (by decide) new]
  norm_num

end ProtoJS.Metrics
