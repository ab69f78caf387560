import ProtoJS.Npm.SemverText
import ProtoJS.Strings.Lexicographic

/-! # The order that `compare` decides

On versions that parse, `compare` is the three-way comparison of a linear order: the numbers one
after the other, and then the pre-releases as texts, under the release. The build does not count.
So the versions that parse are totally preordered. A version that does not parse compares as equal
to every version, which is no order.
-/

namespace ProtoJS.Npm

open Strings

/-- Where a pre-release stands; a release is above all of them. -/
def prereleaseRank (prerelease : Text) : WithTop Text :=
  if prerelease = [] then ⊤ else prerelease

abbrev VersionRank := ℤ ×ₗ ℤ ×ₗ ℤ ×ₗ WithTop Text

/-- What of a version its comparisons depend on. -/
def Version.rank (v : Version) : VersionRank :=
  toLex (v.major, toLex (v.minor, toLex (v.patch, prereleaseRank v.prerelease)))

namespace Semver

section Compare

theorem comparePrerelease_eq (p q : Text) : comparePrerelease p q = threeWay (order p q) := by
  rw [threeWay_order, comparePrerelease]
  congr

/-- The pre-release part of `compareParsed`. -/
theorem threeWay_order_prereleaseRank (p q : Text) :
    threeWay (order (prereleaseRank p) (prereleaseRank q)) =
      if p = [] ∧ q ≠ [] then 1
      else if p ≠ [] ∧ q = [] then -1
      else if p ≠ [] ∧ q ≠ [] then comparePrerelease p q
      else 0 := by
  by_cases pRelease : p = []
  · by_cases qRelease : q = []
    · simp [prereleaseRank, pRelease, qRelease, threeWay]
    · simp [prereleaseRank, pRelease, qRelease, threeWay]
  · by_cases qRelease : q = []
    · simp [prereleaseRank, pRelease, qRelease, threeWay]
    · simp [prereleaseRank, pRelease, qRelease, order_coe, comparePrerelease_eq]

/-- One number decides a comparison unless it is the same in both versions. -/
theorem threeWay_order_then (m n : ℤ) (rest : Ordering) :
    threeWay ((order m n).then rest) = if m < n then -1 else if m > n then 1 else threeWay rest := by
  rcases lt_trichotomy m n with less | rfl | more
  · rw [order_eq_lt.2 less, if_pos less]
    rfl
  · rw [order_self, if_neg (lt_irrefl m), if_neg (lt_irrefl m)]
    rfl
  · rw [order_eq_gt.2 more, if_neg more.not_gt, if_pos more]
    rfl

theorem compareParsed_eq (a b : Version) : compareParsed a b = threeWay (order a.rank b.rank) := by
  rw [Version.rank, Version.rank, order_toLex, order_toLex, order_toLex, threeWay_order_then,
    threeWay_order_then, threeWay_order_then, threeWay_order_prereleaseRank]
  rfl

end Compare

section Versions

variable {v w : Text} {a b : Version}

theorem compare_of_parse (parsedV : parse v = .ok (some a)) (parsedW : parse w = .ok (some b)) :
    Semver.compare v w = .ok (threeWay (order a.rank b.rank)) := by
  rw [← compareParsed_eq]
  simp [Semver.compare, parsedV, parsedW, bind, Except.bind, pure, Except.pure]

theorem compare_of_parse_none (unparsed : parse v = .ok none) :
    Semver.compare v w = .ok 0 := by
  simp [Semver.compare, unparsed, bind, Except.bind, pure, Except.pure]

theorem compare_of_parse_error {e : OutOfRange} (thrown : parse v = .error e) :
    Semver.compare v w = .error e := by
  simp [Semver.compare, thrown, bind, Except.bind]

theorem compare_of_right_none (parsedV : parse v = .ok (some a)) (unparsed : parse w = .ok none) :
    Semver.compare v w = .ok 0 := by
  simp [Semver.compare, parsedV, unparsed, bind, Except.bind, pure, Except.pure]

theorem compare_of_right_error {e : OutOfRange} (parsedV : parse v = .ok (some a))
    (thrown : parse w = .error e) : Semver.compare v w = .error e := by
  simp [Semver.compare, parsedV, thrown, bind, Except.bind]

end Versions

section Laws

variable {u v w : Text} {a b c : Version}

theorem prereleaseRank_injective : Function.Injective prereleaseRank := by
  intro p q same
  simp only [prereleaseRank] at same
  split_ifs at same with pRelease qRelease qRelease
  · rw [pRelease, qRelease]
  · exact absurd same (WithTop.coe_ne_top (a := q)).symm
  · exact absurd same WithTop.coe_ne_top
  · exact WithTop.coe_injective same

theorem rank_eq_iff :
    a.rank = b.rank ↔ a.major = b.major ∧ a.minor = b.minor ∧ a.patch = b.patch ∧
      a.prerelease = b.prerelease := by
  simp [Version.rank, prereleaseRank_injective.eq_iff]

/-- On texts that parse, `compare` is a total preorder, whose equivalence does not look at the
build. -/
theorem compare_preorder (parsedU : parse u = .ok (some a)) (parsedV : parse v = .ok (some b))
    (parsedW : parse w = .ok (some c)) :
    ∃ uv vu vw uw : ℤ, Semver.compare u v = .ok uv ∧ Semver.compare v u = .ok vu ∧
      Semver.compare v w = .ok vw ∧ Semver.compare u w = .ok uw ∧
      uv = -vu ∧ (uv ≤ 0 → vw ≤ 0 → uw ≤ 0) ∧
      (uv = 0 ↔ a.major = b.major ∧ a.minor = b.minor ∧ a.patch = b.patch ∧
        a.prerelease = b.prerelease) := by
  refine ⟨_, _, _, _, compare_of_parse parsedU parsedV, compare_of_parse parsedV parsedU,
    compare_of_parse parsedV parsedW, compare_of_parse parsedU parsedW, ?_, ?_, ?_⟩
  · rw [← threeWay_swap, swap_order]
  · intro uv vw
    rw [threeWay_order_nonpos] at uv vw ⊢
    exact uv.trans vw
  · rw [threeWay_order_eq_zero, rank_eq_iff]

/-- A pre-release, its release and a build of it. -/
theorem compare_preorder_at :
    ∃ uv vu vw uw : ℤ, Semver.compare "1.0.0-rc".toList "1.0.0".toList = .ok uv ∧
      Semver.compare "1.0.0".toList "1.0.0-rc".toList = .ok vu ∧
      Semver.compare "1.0.0".toList "1.0.0+b".toList = .ok vw ∧
      Semver.compare "1.0.0-rc".toList "1.0.0+b".toList = .ok uw ∧
      uv = -vu ∧ (uv ≤ 0 → vw ≤ 0 → uw ≤ 0) ∧
      (uv = 0 ↔ (1 : ℤ) = 1 ∧ (0 : ℤ) = 0 ∧ (0 : ℤ) = 0 ∧ "rc".toList = []) :=
  compare_preorder (a := ⟨1, 0, 0, "rc".toList, []⟩) (b := ⟨1, 0, 0, [], []⟩)
    (c := ⟨1, 0, 0, [], "b".toList⟩) (by decide) (by decide) (by decide)

end Laws

end Semver

end ProtoJS.Npm
