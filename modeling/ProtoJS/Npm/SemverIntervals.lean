import ProtoJS.Npm.SemverRanges

/-! # Ranges as intervals

What a range admits of the versions that parse is a set of ranks. The comparison operators admit
a ray or one rank. A tilde and a caret look at components, and admit what has some of these in
common with the target, which lies between the versions that have it. So every range is an
interval, though a tilde range is not always the one from its target on: a tilde, too, looks at the
patch only.
-/

namespace ProtoJS.Npm

open Strings

namespace Semver

section Tilde

variable {v : Text} {a b : Version}

theorem satisfies_tilde_eq (v t : Text) :
    satisfies v ('~' :: t) = (do
      let _ ← Semver.compare v (t.filter fun c => !isSpace c)
      tildeAllows v (t.filter fun c => !isSpace c)) := by
  have tilde : isSpace '~' = false := by decide
  have range : parseRange ('~' :: t) = some (.tilde, t.filter fun c => !isSpace c) := by
    rw [parseRange, List.filter_cons_of_pos (by simp [tilde])]
    rfl
  rw [satisfies, if_neg (by simp), range]

/-- What the tilde branch looks at. -/
theorem tildeAllows_eq {t : Text} (parsedV : parse v = .ok (some a))
    (parsedT : parse t = .ok (some b)) :
    tildeAllows v t = .ok (decide (a.major = b.major ∧ a.minor = b.minor ∧ b.patch ≤ a.patch)) := by
  simp only [tildeAllows, parsedV, parsedT, bind, Except.bind, pure, Except.pure, ne_eq, ite_not]
  rcases eq_or_ne a.major b.major with major | major
  · rcases eq_or_ne a.minor b.minor with minor | minor
    · simp [major, minor]
    · simp [major, minor]
  · simp [major]

theorem satisfies_tilde {t : Text} (parsedV : parse v = .ok (some a))
    (parsedT : parse (t.filter fun c => !isSpace c) = .ok (some b)) :
    satisfies v ('~' :: t) = .ok (decide (a.major = b.major ∧ a.minor = b.minor ∧
      b.patch ≤ a.patch)) := by
  rw [satisfies_tilde_eq, compare_of_parse parsedV parsedT, ← tildeAllows_eq parsedV parsedT]
  rfl

/-- The patch and the order agree unless the version is below the target with the same numbers. -/
theorem tilde_agrees_iff (a b : Version) :
    ((a.major = b.major ∧ a.minor = b.minor ∧ b.patch ≤ a.patch) ↔
        b.rank ≤ a.rank ∧ a.major = b.major ∧ a.minor = b.minor) ↔
      ¬ (a.major = b.major ∧ a.minor = b.minor ∧ a.patch = b.patch ∧ ¬ b.rank ≤ a.rank) := by
  rcases eq_or_ne a.major b.major with major | major
  · rcases eq_or_ne a.minor b.minor with minor | minor
    · have order := rank_le_of_same_minor major minor
      simp only [major, minor, true_and, and_true, order]
      rcases lt_trichotomy a.patch b.patch with less | same | more
      · simp [less.not_ge, less.not_gt, less.ne, less.ne']
      · simp [same]
      · simp [more.le, more, more.ne']
    · simp [minor]
  · simp [major]

/-- `~M.m.p` is the interval from `M.m.p` on to the next minor exactly for the versions that are
not below `M.m.p` with its numbers. -/
theorem satisfies_tilde_iff {major minor patch : ℕ} (majorBound : major < 2 ^ 31)
    (minorBound : minor < 2 ^ 31) (patchBound : patch < 2 ^ 31) (prerelease : Option Text)
    (parsed : parse v = .ok (some a)) :
    (∃ holds, satisfies v ('~' :: (numbersText major minor patch ++ labelText '-' prerelease)) =
        .ok holds ∧ (holds = true ↔
          AtLeast v (numbersText major minor patch ++ labelText '-' prerelease) ∧
            a.major = major ∧ a.minor = minor)) ↔
      ¬ (a.major = major ∧ a.minor = minor ∧ a.patch = patch ∧
        ¬ AtLeast v (numbersText major minor patch ++ labelText '-' prerelease)) := by
  obtain ⟨pre, build, target⟩ := parse_target majorBound minorBound patchBound prerelease
  obtain ⟨pre', build', target'⟩ := parse_target majorBound minorBound patchBound
    (prerelease.map (List.filter fun c => !isSpace c))
  rw [← filter_numbersText_append] at target'
  rw [satisfies_tilde parsed target', atLeast_iff parsed target]
  have agrees := tilde_agrees_iff a ⟨major, minor, patch, pre, build⟩
  rw [← agrees]
  simp only [Except.ok.injEq, exists_eq_left', decide_eq_true_eq]

theorem satisfies_tilde_iff_at :
    (∃ holds, satisfies "1.2.9".toList ('~' :: (numbersText 1 2 3 ++ labelText '-' none)) =
        .ok holds ∧ (holds = true ↔
          AtLeast "1.2.9".toList (numbersText 1 2 3 ++ labelText '-' none) ∧
            (1 : ℤ) = (1 : ℕ) ∧ (2 : ℤ) = (2 : ℕ))) ↔
      ¬ ((1 : ℤ) = (1 : ℕ) ∧ (2 : ℤ) = (2 : ℕ) ∧ (9 : ℤ) = (3 : ℕ) ∧
        ¬ AtLeast "1.2.9".toList (numbersText 1 2 3 ++ labelText '-' none)) :=
  satisfies_tilde_iff (a := ⟨1, 2, 9, [], []⟩) (by decide) (by decide) (by decide) none (by decide)

/-- `1.2.3-alpha` is below `1.2.3`, and `~1.2.3` admits it. -/
theorem satisfies_tilde_below :
    satisfies "1.2.3-alpha".toList "~1.2.3".toList = .ok true ∧
      Semver.compare "1.2.3-alpha".toList "1.2.3".toList = .ok (-1) ∧
      ¬ AtLeast "1.2.3-alpha".toList "1.2.3".toList := by
  refine ⟨by decide, by decide, ?_⟩
  rintro ⟨c, compared, nonneg⟩
  rw [show Semver.compare "1.2.3-alpha".toList "1.2.3".toList = .ok (-1) by decide] at compared
  obtain rfl := Except.ok.inj compared
  exact absurd nonneg (by decide)

end Tilde

section Ranks

variable {v range : Text} {a t : Version}

/-- The ranks with the minor of the target and no lower patch, without their major. -/
def tildeTails (t : Version) : Set (ℤ ×ₗ ℤ ×ₗ WithTop Text) :=
  {x | (ofLex x).1 = t.minor ∧ (ofLex x).2 ∈ {y : ℤ ×ₗ WithTop Text | t.patch ≤ (ofLex y).1}}

/-- The ranks that an operator admits for a target that parses. -/
def targetRanks (t : Version) : RangeOp → Set VersionRank
  | .none | .eq => {t.rank}
  | .gt => Set.Ioi t.rank
  | .ge => Set.Ici t.rank
  | .lt => Set.Iio t.rank
  | .le => Set.Iic t.rank
  | .tilde => {x | (ofLex x).1 = t.major ∧ (ofLex x).2 ∈ tildeTails t}
  | .caret => {x | (ofLex x).1 = t.major ∧
      (ofLex x).2 ∈ if t.major = 0 then tildeTails t else Set.univ}

/-- The ranks that an operator admits for a target that does not parse, but throws nothing. -/
def unparsedRanks : RangeOp → Set VersionRank
  | .none | .eq | .ge | .le => Set.univ
  | .gt | .lt | .tilde | .caret => ∅

/-- The ranks that a range admits. -/
def ranks (range : Text) : Set VersionRank :=
  if range = "*".toList ∨ range = "latest".toList then Set.univ
  else match parse (cutRange range).2 with
    | .ok (some t) => targetRanks t (cutRange range).1
    | .ok none => unparsedRanks (cutRange range).1
    | .error _ => ∅

theorem ordConnected_tildeTails (t : Version) : (tildeTails t).OrdConnected := by
  apply ordConnected_fiber
  rw [Set.ordConnected_iff]
  intro x low z _ _ y between
  exact le_trans (α := ℤ) low (Prod.Lex.monotone_fst_ofLex between.1)

theorem ordConnected_targetRanks (t : Version) (op : RangeOp) :
    (targetRanks t op).OrdConnected := by
  cases op with
  | none | eq => exact Set.ordConnected_singleton
  | gt => exact Set.ordConnected_Ioi
  | ge => exact Set.ordConnected_Ici
  | lt => exact Set.ordConnected_Iio
  | le => exact Set.ordConnected_Iic
  | tilde => exact ordConnected_fiber _ (ordConnected_tildeTails t)
  | caret =>
    apply ordConnected_fiber
    split_ifs
    · exact ordConnected_tildeTails t
    · exact Set.ordConnected_univ

theorem ordConnected_ranks (range : Text) : (ranks range).OrdConnected := by
  rw [ranks]
  split_ifs
  · exact Set.ordConnected_univ
  split
  · exact ordConnected_targetRanks _ _
  · cases (cutRange range).1 with
    | none | eq | ge | le => exact Set.ordConnected_univ
    | gt | lt | tilde | caret => exact Set.ordConnected_empty
  · exact Set.ordConnected_empty

theorem admits_iff_of_parse {op : RangeOp} {target : Text} (parsedV : parse v = .ok (some a))
    (parsedT : parse target = .ok (some t)) :
    admits v op target = .ok true ↔ a.rank ∈ targetRanks t op := by
  rw [admits, compare_of_parse parsedV parsedT]
  cases op with
  | none | eq =>
    simp [targetRanks, bind, Except.bind, pure, Except.pure, threeWay_order_eq_zero]
  | gt => simp [targetRanks, bind, Except.bind, pure, Except.pure, threeWay_order_pos]
  | ge => simp [targetRanks, bind, Except.bind, pure, Except.pure, threeWay_order_nonneg]
  | lt => simp [targetRanks, bind, Except.bind, pure, Except.pure, threeWay_order_neg]
  | le => simp [targetRanks, bind, Except.bind, pure, Except.pure, threeWay_order_nonpos]
  | tilde =>
    simp [targetRanks, tildeTails, bind, Except.bind, tildeAllows_eq parsedV parsedT, Version.rank]
  | caret =>
    simp only [targetRanks, tildeTails, bind, Except.bind, caretAllows_eq parsedV parsedT,
      Version.rank, Except.ok.injEq, decide_eq_true_eq, Set.mem_ofPred_eq, ofLex_toLex]
    apply and_congr_right
    intro major
    rw [major]
    split_ifs with zero <;> simp [zero]

theorem admits_iff_of_none {op : RangeOp} {target : Text} (parsedV : parse v = .ok (some a))
    (unparsed : parse target = .ok none) :
    admits v op target = .ok true ↔ a.rank ∈ unparsedRanks op := by
  rw [admits, compare_of_right_none parsedV unparsed]
  cases op <;> simp [unparsedRanks, tildeAllows, caretAllows, unparsed, bind, Except.bind, pure,
    Except.pure]

/-- A range admits the versions of its ranks. -/
theorem satisfies_iff_mem_ranks (parsed : parse v = .ok (some a)) :
    satisfies v range = .ok true ↔ a.rank ∈ ranks range := by
  rw [ranks]
  split_ifs with always
  · rw [satisfies, if_pos always]
    simp [pure, Except.pure]
  rw [satisfies_eq_admits (not_or.1 always).1 (not_or.1 always).2]
  split
  · rename_i t target
    exact admits_iff_of_parse parsed target
  · rename_i unparsed
    exact admits_iff_of_none parsed unparsed
  · rename_i e thrown
    simp [admits, compare_of_right_error parsed thrown, bind, Except.bind]

/-- A version between two versions that a range admits is admitted, too. -/
theorem satisfies_between {u w : Text} {c : Version} {uv vw : ℤ} {b : Version}
    (parsedU : parse u = .ok (some a)) (parsedV : parse v = .ok (some b))
    (parsedW : parse w = .ok (some c))
    (below : Semver.compare u v = .ok uv) (low : uv ≤ 0)
    (above : Semver.compare v w = .ok vw) (high : vw ≤ 0)
    (first : satisfies u range = .ok true) (last : satisfies w range = .ok true) :
    satisfies v range = .ok true := by
  rw [compare_of_parse parsedU parsedV, Except.ok.injEq] at below
  rw [compare_of_parse parsedV parsedW, Except.ok.injEq] at above
  rw [← below, threeWay_order_nonpos] at low
  rw [← above, threeWay_order_nonpos] at high
  rw [satisfies_iff_mem_ranks parsedU] at first
  rw [satisfies_iff_mem_ranks parsedW] at last
  rw [satisfies_iff_mem_ranks parsedV]
  exact (ordConnected_ranks range).out first last ⟨low, high⟩

/-- A pre-release under `~`, between a release and a later one. -/
theorem satisfies_between_at : satisfies "1.2.4-rc".toList "~1.2.3".toList = .ok true :=
  satisfies_between (u := "1.2.3".toList) (w := "1.2.9".toList) (a := ⟨1, 2, 3, [], []⟩)
    (b := ⟨1, 2, 4, "rc".toList, []⟩) (c := ⟨1, 2, 9, [], []⟩) (by decide) (by decide) (by decide)
    (show Semver.compare "1.2.3".toList "1.2.4-rc".toList = .ok (-1) by decide) (by decide)
    (show Semver.compare "1.2.4-rc".toList "1.2.9".toList = .ok (-1) by decide) (by decide)
    (by decide) (by decide)

end Ranks

end Semver

end ProtoJS.Npm
