import ProtoJS.Npm.SemverOrder

/-! # Which versions a range admits

A caret range is decided by components: the lower bound is not looked at once the major is that of
the target and not 0. A version or a target that does not parse compares as equal, so that most
operators admit it.
-/

namespace ProtoJS.Npm

open Strings

/-- The text parses as a version. -/
def Parses (text : Text) : Prop := ∃ version, Semver.parse text = .ok (some version)

/-- `parse` throws on the text. -/
def Throws (text : Text) : Prop := Semver.parse text = .error .substr

theorem parses_or (text : Text) :
    Parses text ∨ Semver.parse text = .ok none ∨ Throws text := by
  cases parsed : Semver.parse text with
  | error e => exact .inr (.inr parsed)
  | ok version =>
    cases version with
    | none => exact .inr (.inl rfl)
    | some version => exact .inl ⟨version, parsed⟩

theorem not_throws_of_none {text : Text} (unparsed : Semver.parse text = .ok none) :
    ¬ Throws text := by
  simp [Throws, unparsed]

theorem Parses.not_throws {text : Text} (parses : Parses text) : ¬ Throws text := by
  obtain ⟨version, parsed⟩ := parses
  simp [Throws, parsed]

theorem Parses.ne_none {text : Text} (parses : Parses text) : Semver.parse text ≠ .ok none := by
  obtain ⟨version, parsed⟩ := parses
  rw [parsed]
  simp

namespace Semver

section Caret

variable {v : Text} {a b : Version}

theorem satisfies_caret_eq (v t : Text) :
    satisfies v ('^' :: t) = (do
      let _ ← Semver.compare v (t.filter fun c => !isSpace c)
      caretAllows v (t.filter fun c => !isSpace c)) := by
  have caret : isSpace '^' = false := by decide
  have range : parseRange ('^' :: t) = some (.caret, t.filter fun c => !isSpace c) := by
    rw [parseRange, List.filter_cons_of_pos (by simp [caret])]
    rfl
  rw [satisfies, if_neg (by simp), range]

theorem filter_numbersText (major minor patch : ℕ) :
    (numbersText major minor patch).filter (fun c => !isSpace c) = numbersText major minor patch := by
  apply List.filter_eq_self.2
  intro c member
  cases space : isSpace c with
  | false => rfl
  | true =>
    apply absurd member
    apply not_mem_numbersText
    · cases digit : c.isDigit with
      | false => rfl
      | true =>
        rw [isSpace_eq_false_of_isDigit digit] at space
        exact absurd space (by decide)
    · rintro rfl
      exact absurd space (by decide)

theorem filter_numbersText_append (major minor patch : ℕ) (prerelease : Option Text) :
    (numbersText major minor patch ++ labelText '-' prerelease).filter (fun c => !isSpace c) =
      numbersText major minor patch ++
        labelText '-' (prerelease.map (List.filter fun c => !isSpace c)) := by
  rw [List.filter_append, filter_numbersText]
  cases prerelease with
  | none => rfl
  | some text => rw [labelText, List.filter_cons_of_pos (by decide)]; rfl

/-- A target `M.m.p` with any pre-release parses to these numbers. -/
theorem parse_target {major minor patch : ℕ} (majorBound : major < 2 ^ 31)
    (minorBound : minor < 2 ^ 31) (patchBound : patch < 2 ^ 31) (prerelease : Option Text) :
    ∃ pre build, parse (numbersText major minor patch ++ labelText '-' prerelease) =
      .ok (some ⟨major, minor, patch, pre, build⟩) := by
  have numbers := parseNumbers_numbersText majorBound minorBound patchBound
  have parsed (pre build : Option Text) (noPlus : '+' ∉ pre.getD [])
      (readable : ¬ (pre = none ∧ '-' ∈ build.getD [])) :
      parse (numbersText major minor patch ++ labelText '-' pre ++ labelText '+' build) =
        .ok (some ⟨major, minor, patch, pre.getD [], build.getD []⟩) := by
    rw [parse_append_labels numbersText_ne_nil head_numbersText_ne_v
      (not_mem_numbersText (by decide) (by decide)) (not_mem_numbersText (by decide) (by decide))
      _ _ noPlus, if_neg readable, numbers]
    rfl
  cases prerelease with
  | none => exact ⟨[], [], by simpa [labelText] using parsed none none (by simp) (by simp)⟩
  | some text =>
    by_cases plus : '+' ∈ text
    · obtain ⟨pre, build, rfl, noPlus⟩ := List.eq_append_cons_of_mem plus
      refine ⟨pre, build, ?_⟩
      have read := parsed (some pre) (some build) (by simpa using noPlus) (by simp)
      simpa [labelText] using read
    · have read := parsed (some text) none (by simpa using plus) (by simp)
      exact ⟨text, [], by simpa [labelText] using read⟩

/-- What the caret branch looks at. -/
theorem caretAllows_eq {t : Text} (parsedV : parse v = .ok (some a))
    (parsedT : parse t = .ok (some b)) :
    caretAllows v t = .ok (decide (a.major = b.major ∧
      (a.major = 0 → a.minor = b.minor ∧ b.patch ≤ a.patch))) := by
  simp only [caretAllows, parsedV, parsedT, bind, Except.bind, pure, Except.pure, ne_eq, ite_not]
  by_cases major : a.major = b.major
  · by_cases zero : a.major = 0
    · by_cases minor : a.minor = b.minor
      · simp [major, minor, major ▸ zero]
      · simp [major, minor, major ▸ zero]
    · simp [major, major ▸ zero]
  · simp [major]

theorem rank_le_of_same_minor (major : a.major = b.major) (minor : a.minor = b.minor) :
    b.rank ≤ a.rank ↔ b.patch < a.patch ∨
      b.patch = a.patch ∧ prereleaseRank b.prerelease ≤ prereleaseRank a.prerelease := by
  simp [Version.rank, Prod.Lex.toLex_le_toLex, major, minor]

/-- The components and the interval agree unless the version is below the target and shares with
it what the branch looks at. -/
theorem caret_agrees_iff (a b : Version) :
    ((a.major = b.major ∧ (a.major = 0 → a.minor = b.minor ∧ b.patch ≤ a.patch)) ↔
        b.rank ≤ a.rank ∧ a.major = b.major ∧ (b.major = 0 → a.minor = b.minor)) ↔
      ¬ (a.major = b.major ∧ (b.major = 0 → a.minor = b.minor ∧ a.patch = b.patch) ∧
        ¬ b.rank ≤ a.rank) := by
  by_cases major : a.major = b.major
  · by_cases zero : b.major = 0
    · by_cases minor : a.minor = b.minor
      · have order := rank_le_of_same_minor major minor
        simp only [major, zero, minor, true_and, forall_const, order]
        rcases lt_trichotomy a.patch b.patch with less | same | more
        · simp [less.not_ge, less.not_gt, less.ne, less.ne']
        · simp [same]
        · simp [more.le, more, more.ne']
      · simp [major, zero, minor]
    · simp [major, zero]
  · simp [major]

/-- `compare` puts the version at or above the target. -/
def AtLeast (v t : Text) : Prop := ∃ c, Semver.compare v t = .ok c ∧ 0 ≤ c

theorem atLeast_iff {t : Text} (parsedV : parse v = .ok (some a))
    (parsedT : parse t = .ok (some b)) :
    AtLeast v t ↔ b.rank ≤ a.rank := by
  rw [AtLeast, compare_of_parse parsedV parsedT]
  simp [threeWay_order_nonneg]

theorem satisfies_caret {t : Text} (parsedV : parse v = .ok (some a))
    (parsedT : parse (t.filter fun c => !isSpace c) = .ok (some b)) :
    satisfies v ('^' :: t) = .ok (decide (a.major = b.major ∧
      (a.major = 0 → a.minor = b.minor ∧ b.patch ≤ a.patch))) := by
  rw [satisfies_caret_eq, compare_of_parse parsedV parsedT, ← caretAllows_eq parsedV parsedT]
  rfl

/-- `^M.m.p` is the interval from `M.m.p` on to the next major (under major 0 the next minor)
exactly for the versions that are not below `M.m.p` with its major (under major 0 with its minor and
patch, too). -/
theorem satisfies_caret_iff {major minor patch : ℕ} (majorBound : major < 2 ^ 31)
    (minorBound : minor < 2 ^ 31) (patchBound : patch < 2 ^ 31) (prerelease : Option Text)
    (parsed : parse v = .ok (some a)) :
    (∃ holds, satisfies v ('^' :: (numbersText major minor patch ++ labelText '-' prerelease)) =
        .ok holds ∧ (holds = true ↔
          AtLeast v (numbersText major minor patch ++ labelText '-' prerelease) ∧
            a.major = major ∧ (major = 0 → a.minor = minor))) ↔
      ¬ (a.major = major ∧ (major = 0 → a.minor = minor ∧ a.patch = patch) ∧
        ¬ AtLeast v (numbersText major minor patch ++ labelText '-' prerelease)) := by
  obtain ⟨pre, build, target⟩ := parse_target majorBound minorBound patchBound prerelease
  obtain ⟨pre', build', target'⟩ := parse_target majorBound minorBound patchBound
    (prerelease.map (List.filter fun c => !isSpace c))
  rw [← filter_numbersText_append] at target'
  rw [satisfies_caret parsed target', atLeast_iff parsed target]
  have agrees := caret_agrees_iff a ⟨major, minor, patch, pre, build⟩
  simp only [Int.natCast_eq_zero] at agrees
  rw [← agrees]
  simp only [Except.ok.injEq, exists_eq_left', decide_eq_true_eq]

theorem satisfies_caret_iff_at :
    (∃ holds, satisfies "1.5.0".toList ('^' :: (numbersText 1 2 3 ++ labelText '-' none)) =
        .ok holds ∧ (holds = true ↔
          AtLeast "1.5.0".toList (numbersText 1 2 3 ++ labelText '-' none) ∧
            (1 : ℤ) = (1 : ℕ) ∧ ((1 : ℕ) = 0 → (5 : ℤ) = (2 : ℕ)))) ↔
      ¬ ((1 : ℤ) = (1 : ℕ) ∧ ((1 : ℕ) = 0 → (5 : ℤ) = (2 : ℕ) ∧ (0 : ℤ) = (3 : ℕ)) ∧
        ¬ AtLeast "1.5.0".toList (numbersText 1 2 3 ++ labelText '-' none)) :=
  satisfies_caret_iff (a := ⟨1, 5, 0, [], []⟩) (by decide) (by decide) (by decide) none (by decide)

/-- `1.0.0` is below `1.2.3`, and `^1.2.3` admits it. -/
theorem satisfies_caret_below :
    satisfies "1.0.0".toList "^1.2.3".toList = .ok true ∧
      Semver.compare "1.0.0".toList "1.2.3".toList = .ok (-1) ∧
      ¬ AtLeast "1.0.0".toList "1.2.3".toList := by
  refine ⟨by decide, by decide, ?_⟩
  rintro ⟨c, compared, nonneg⟩
  rw [show Semver.compare "1.0.0".toList "1.2.3".toList = .ok (-1) by decide] at compared
  obtain rfl := Except.ok.inj compared
  exact absurd nonneg (by decide)

end Caret

section Malformed

variable {v target : Text}

/-- The operator of a range and what it is applied to. White space alone is an empty target. -/
def cutRange (range : Text) : RangeOp × Text := (parseRange range).getD (.none, [])

/-- `satisfies` behind the test for `*` and `latest`, on a range that has been cut. -/
def admits (v : Text) (op : RangeOp) (target : Text) : Except OutOfRange Bool := do
  let cmp ← Semver.compare v target
  match op with
  | .none | .eq => return cmp = 0
  | .gt => return cmp > 0
  | .ge => return cmp ≥ 0
  | .lt => return cmp < 0
  | .le => return cmp ≤ 0
  | .tilde => tildeAllows v target
  | .caret => caretAllows v target

theorem parse_of_spaces {text : Text} (spaces : text.filter (fun c => !isSpace c) = []) :
    parse text = .ok none := by
  have space : ∀ c ∈ text, isSpace c = true := by
    intro c member
    cases here : isSpace c with
    | true => rfl
    | false =>
      have kept : c ∈ text.filter fun c => !isSpace c := List.mem_filter.2 ⟨member, by simp [here]⟩
      rw [spaces] at kept
      exact absurd kept List.not_mem_nil
  have absent {c : Char} (noSpace : isSpace c = false) : c ∉ text := by
    intro member
    rw [space c member] at noSpace
    exact absurd noSpace (by decide)
  have noV : withoutV text = text := by
    rw [withoutV, if_neg]
    intro head
    exact absent (c := 'v') (by decide) (List.mem_of_mem_head? head)
  have nothing : text.dropWhile isSpace = [] := List.dropWhile_eq_nil_iff.2 space
  have numbers : parseNumbers text = none := by
    simp [parseNumbers, extractInt, nothing]
  simp [parse, noV, find_eq_none_iff.2 (absent (c := '-') (by decide)),
    find_eq_none_iff.2 (absent (c := '+') (by decide)), numbers, bind, Except.bind, pure, Except.pure]

theorem parseRange_eq_none {range : Text} (cut : parseRange range = none) :
    range.filter (fun c => !isSpace c) = [] := by
  rw [parseRange] at cut
  split at cut
  · assumption
  all_goals exact absurd cut (by simp)

theorem compare_congr {t t' : Text} (same : parse t = parse t') :
    Semver.compare v t = Semver.compare v t' := by
  rw [Semver.compare, Semver.compare, same]

theorem satisfies_eq_admits {range : Text} (noStar : range ≠ "*".toList)
    (noLatest : range ≠ "latest".toList) :
    satisfies v range = admits v (cutRange range).1 (cutRange range).2 := by
  rw [satisfies, if_neg (not_or.2 ⟨noStar, noLatest⟩), cutRange]
  cases cut : parseRange range with
  | some cut => rfl
  | none =>
    have unparsed := parse_of_spaces (parseRange_eq_none cut)
    have empty : parse [] = .ok none := rfl
    rw [compare_congr (unparsed.trans empty.symm)]
    rfl

/-- What an operator does with a malformed version or target: only `>`, `<`, `~` and `^` can turn
it down. They do where nothing throws. -/
def RejectsMalformed (v target : Text) : RangeOp → Prop
  | .gt | .lt => ¬ Throws v ∧ (Throws target → ¬ Parses v)
  | .tilde | .caret => ¬ Throws v ∧ ¬ Throws target
  | .none | .eq | .ge | .le => False

/-- On malformed input `compare` throws or gives 0. -/
theorem compare_malformed (malformed : ¬ Parses v ∨ ¬ Parses target) :
    (Semver.compare v target = .error .substr ∧ (Throws v ∨ Throws target ∧ Parses v)) ∨
      (Semver.compare v target = .ok 0 ∧ ¬ Throws v ∧ (Throws target → ¬ Parses v)) := by
  rcases parses_or v with parsesV | unparsed | throws
  · have unreadable : ¬ Parses target := malformed.resolve_left (not_not.2 parsesV)
    obtain ⟨a, parsedV⟩ := parsesV
    rcases parses_or target with parses | unparsed | throws
    · exact absurd parses unreadable
    · right
      exact ⟨compare_of_right_none parsedV unparsed, Parses.not_throws ⟨a, parsedV⟩,
        fun throws => absurd throws (not_throws_of_none unparsed)⟩
    · left
      exact ⟨compare_of_right_error parsedV throws, .inr ⟨throws, a, parsedV⟩⟩
  · right
    exact ⟨compare_of_parse_none unparsed, not_throws_of_none unparsed,
      fun _ parses => parses.ne_none unparsed⟩
  · left
    exact ⟨compare_of_parse_error throws, .inl throws⟩

/-- The branches of `~` and `^` begin with the same two calls of `parse`. -/
theorem branch_malformed (malformed : ¬ Parses v ∨ ¬ Parses target) (noThrow : ¬ Throws v)
    (decided : Version → Version → Except OutOfRange Bool) :
    (do
      let some t ← parse target | return false
      let some w ← parse v | return false
      decided t w) = Except.ok false ↔ ¬ Throws target := by
  rcases parses_or target with parses | unparsed | throws
  · have unreadable : ¬ Parses v := malformed.resolve_right (not_not.2 parses)
    have noVersion : parse v = .ok none :=
      ((parses_or v).resolve_left unreadable).resolve_right noThrow
    have noThrow := parses.not_throws
    obtain ⟨t, parsed⟩ := parses
    simp [parsed, noVersion, noThrow, bind, Except.bind, pure, Except.pure]
  · simp [unparsed, not_throws_of_none unparsed, bind, Except.bind, pure, Except.pure]
  · rw [show parse target = .error .substr from throws]
    simp [throws, bind, Except.bind]

/-- With a malformed version or target, a range other than `*` and `latest` turns the version down
exactly when its operator does. -/
theorem satisfies_malformed_iff {range : Text} (noStar : range ≠ "*".toList)
    (noLatest : range ≠ "latest".toList)
    (malformed : ¬ Parses v ∨ ¬ Parses (cutRange range).2) :
    satisfies v range = .ok false ↔ RejectsMalformed v (cutRange range).2 (cutRange range).1 := by
  rw [satisfies_eq_admits noStar noLatest, admits]
  generalize (cutRange range).2 = target at *
  rcases compare_malformed malformed with ⟨thrown, cause⟩ | ⟨zero, noThrow, quiet⟩
  · rw [thrown]
    cases (cutRange range).1 <;>
      simp only [RejectsMalformed, bind, Except.bind, reduceCtorEq, false_iff]
    all_goals grind
  · rw [zero]
    cases (cutRange range).1 with
    | none | eq | ge | le => simp [RejectsMalformed, bind, Except.bind, pure, Except.pure]
    | gt | lt => simpa [RejectsMalformed, bind, Except.bind, pure, Except.pure] using ⟨noThrow, quiet⟩
    | tilde =>
      simp only [RejectsMalformed, noThrow, not_false_eq_true, true_and]
      exact branch_malformed malformed noThrow _
    | caret =>
      simp only [RejectsMalformed, noThrow, not_false_eq_true, true_and]
      exact branch_malformed malformed noThrow _

theorem not_parses_garbage : ¬ Parses "garbage".toList := fun parses => parses.ne_none (by decide)

theorem satisfies_malformed_iff_at :
    satisfies "garbage".toList ">1.0.0".toList = .ok false ↔
      RejectsMalformed "garbage".toList (cutRange ">1.0.0".toList).2 (cutRange ">1.0.0".toList).1 :=
  satisfies_malformed_iff (by decide) (by decide) (.inl not_parses_garbage)

/-- Text that is no version satisfies the exact range of a version. -/
theorem satisfies_garbage :
    ¬ Parses "garbage".toList ∧ satisfies "garbage".toList "1.0.0".toList = .ok true ∧
      satisfies "garbage".toList ">=1.0.0".toList = .ok true :=
  ⟨fun parses => parses.ne_none (by decide), by decide, by decide⟩

end Malformed

end Semver

end ProtoJS.Npm
