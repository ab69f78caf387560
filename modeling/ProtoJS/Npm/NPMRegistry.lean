import ProtoJS.Npm.SemverHighest

/-! # Resolving a range against the registry

`NPMRegistry::resolveVersion`. What the registry answers is the function `fetchPackage`. The
versions of a package are a map from their texts, which is sorted by these.
-/

namespace ProtoJS.Npm

open Strings Selection

/-- `PackageMetadata`, as far as a range is resolved against it; `α` is what is known of each
version. -/
structure PackageMetadata (α : Type) where
  versions : List (Text × α)
  latest : Text
  sorted : (versions.map Prod.fst).Pairwise (· < ·)

namespace NPMRegistry

variable {α : Type}

def resolveVersion (fetchPackage : Text → Text → PackageMetadata α)
    (packageName versionRange registry : Text) : Except OutOfRange Text := do
  let metadata := fetchPackage packageName registry
  if metadata.versions = [] then return []
  let resolved ← Semver.findHighest (metadata.versions.map Prod.fst) versionRange
  if resolved = [] ∧ versionRange = "latest".toList then return metadata.latest
  else return resolved

section DistTag

variable {keys rest : List Text} {x tag : Text}

/-- The tag parses, no key that parses is above it, and none before it is as high. -/
def IsHighestTag (keys : List Text) (tag : Text) : Prop :=
  Parses tag ∧ ∀ key ∈ keys, Parses key →
    Semver.AtLeast tag key ∧ (key < tag → ¬ Semver.AtLeast key tag)

/-- When the highest version is the tag: no key after the first one that is not empty throws; and
the tag is the highest key if that first key parses, and the first key itself if it does not. Where
the only key is empty, the tag is it. -/
def TagIsHighest (keys : List Text) (tag : Text) : Prop :=
  match keys.filter (· ≠ []) with
  | [] => True
  | x :: rest => (∀ w ∈ rest, ¬ Throws w) ∧
      (Parses x ∧ IsHighestTag keys tag ∨
        ¬ Parses x ∧ x = tag ∧ (Throws x → ∀ w ∈ rest, ¬ Parses w))

theorem satisfies_latest (version : Text) :
    Semver.satisfies version "latest".toList = .ok true := by
  rw [Semver.satisfies, if_pos (.inr rfl)]
  rfl

theorem admitted_latest : Semver.admitted "latest".toList keys = keys.filter (· ≠ []) := by
  apply List.filter_congr
  intro v _
  rw [satisfies_latest]
  simp

/-- The keys that parse are among those that are not empty, and these are sorted. -/
theorem isFirstHighest_iff_isHighestTag (sorted : keys.Pairwise (· < ·))
    (named : keys.filter (· ≠ []) = x :: rest) (member : tag ∈ keys) (present : tag ≠ []) :
    IsFirstHighest textRank (x :: rest) tag ↔ IsHighestTag keys tag := by
  have mem_iff (key : Text) : key ∈ x :: rest ↔ key ∈ keys ∧ key ≠ [] := by
    rw [← named, List.mem_filter]
    simp
  have sortedNamed : (x :: rest).Pairwise (· < ·) := by
    rw [← named]
    exact sorted.filter _
  rw [IsFirstHighest.iff_of_sorted sortedNamed ((mem_iff tag).2 ⟨member, present⟩)]
  constructor
  · rintro ⟨r, ranked, bounds⟩
    refine ⟨parses_iff_textRank.2 ⟨r, ranked⟩, ?_⟩
    intro key inside parses
    obtain ⟨s, rankedKey⟩ := parses_iff_textRank.1 parses
    have bound := bounds key ((mem_iff key).2 ⟨inside, parses.ne_nil⟩) s rankedKey
    refine ⟨(atLeast_iff_textRank ranked rankedKey).2 bound.1, ?_⟩
    intro before atLeast
    exact (bound.2 before).not_ge ((atLeast_iff_textRank rankedKey ranked).1 atLeast)
  · rintro ⟨parses, bounds⟩
    obtain ⟨r, ranked⟩ := parses_iff_textRank.1 parses
    refine ⟨r, ranked, ?_⟩
    intro key inside s rankedKey
    have bound := bounds key ((mem_iff key).1 inside).1 (parses_iff_textRank.2 ⟨s, rankedKey⟩)
    refine ⟨(atLeast_iff_textRank ranked rankedKey).1 bound.1, ?_⟩
    intro before
    apply lt_of_not_ge
    intro le
    exact bound.2 before ((atLeast_iff_textRank rankedKey ranked).2 le)

theorem foldl_keepHigher_ne_nil (present : x ≠ []) :
    rest.foldl (keepHigher textRank) x ≠ [] := by
  induction rest generalizing x with
  | nil => exact present
  | cons w rest ih => exact ih (Semver.keepHigher_ne_nil present)

/-- The highest version of all is the tag, or there is none and the tag is taken. -/
theorem findHighest_latest_iff (sorted : keys.Pairwise (· < ·)) (member : tag ∈ keys) :
    (∃ resolved, Semver.findHighest keys "latest".toList = .ok resolved ∧
        (resolved = [] ∨ resolved = tag)) ↔ TagIsHighest keys tag := by
  have answers : ∀ v ∈ keys, ∃ holds, Semver.satisfies v "latest".toList = .ok holds :=
    fun v _ => ⟨true, satisfies_latest v⟩
  simp only [Semver.findHighest_iff, and_iff_right answers, admitted_latest, TagIsHighest]
  cases named : keys.filter (· ≠ []) with
  | nil => simp
  | cons x rest =>
    have present : x ≠ [] := by
      have inside : x ∈ keys.filter (· ≠ []) := by rw [named]; exact List.mem_cons_self
      simpa using (List.mem_filter.1 inside).2
    have kept : rest.foldl (keepHigher textRank) x ≠ [] := foldl_keepHigher_ne_nil present
    simp only [and_assoc, exists_and_left, exists_eq_left', kept, false_or]
    by_cases parses : Parses x
    · have noThrow := parses.not_throws
      obtain ⟨r, ranked⟩ := parses_iff_textRank.1 parses
      have first := isFirstHighest_foldl (l := rest) ranked
      have same : rest.foldl (keepHigher textRank) x = tag ↔ IsHighestTag keys tag := by
        constructor
        · intro chosen
          rw [chosen] at first kept
          exact (isFirstHighest_iff_isHighestTag sorted named member kept).1 first
        · intro highest
          have firstTag := (isFirstHighest_iff_isHighestTag sorted named member
            highest.1.ne_nil).2 highest
          exact first.unique firstTag
      simp [parses, noThrow, same]
    · rw [foldl_keepHigher_of_none (textRank_eq_none parses)]
      simp only [parses, false_and, false_or, not_false_eq_true, true_and, forall_and]
      tauto

variable {α : Type}

/-- `resolveVersion` on `latest`, for metadata with a tag that names one of its versions: the
result is the tag exactly when the tag is what the search for the highest version finds. -/
theorem resolveVersion_latest_iff (fetchPackage : Text → Text → PackageMetadata α)
    (packageName registry : Text)
    (nonempty : (fetchPackage packageName registry).versions ≠ [])
    (tagged : (fetchPackage packageName registry).latest ∈
      (fetchPackage packageName registry).versions.map Prod.fst) :
    resolveVersion fetchPackage packageName "latest".toList registry =
        .ok (fetchPackage packageName registry).latest ↔
      TagIsHighest ((fetchPackage packageName registry).versions.map Prod.fst)
        (fetchPackage packageName registry).latest := by
  rw [← findHighest_latest_iff (fetchPackage packageName registry).sorted tagged, resolveVersion]
  simp only [nonempty, if_false]
  cases Semver.findHighest ((fetchPackage packageName registry).versions.map Prod.fst)
      "latest".toList with
  | error e => simp [bind, Except.bind]
  | ok resolved =>
    by_cases empty : resolved = []
    · simp [bind, Except.bind, pure, Except.pure, empty]
    · simp [bind, Except.bind, pure, Except.pure, empty]

/-- Two versions, of which the tag names the lower one. -/
def taggedBelow : PackageMetadata Unit where
  versions := [("1.0.0".toList, ()), ("2.0.0-beta".toList, ())]
  latest := "1.0.0".toList
  sorted := by decide

theorem resolveVersion_taggedBelow :
    taggedBelow.latest ∈ taggedBelow.versions.map Prod.fst ∧
      resolveVersion (fun _ _ => taggedBelow) "package".toList "latest".toList
        "registry".toList = .ok "2.0.0-beta".toList ∧
      "2.0.0-beta".toList ≠ taggedBelow.latest :=
  ⟨by decide, by decide, by decide⟩

/-- The same versions with the higher one as the tag. -/
def taggedHighest : PackageMetadata Unit := { taggedBelow with latest := "2.0.0-beta".toList }

theorem resolveVersion_latest_iff_at :
    resolveVersion (fun _ _ => taggedHighest) "package".toList "latest".toList
        "registry".toList = .ok taggedHighest.latest ↔
      TagIsHighest (taggedHighest.versions.map Prod.fst) taggedHighest.latest :=
  resolveVersion_latest_iff (fun _ _ => taggedHighest) "package".toList "registry".toList
    (by decide) (by decide)

end DistTag

end NPMRegistry

end ProtoJS.Npm
