import ProtoJS.Npm.SemverText

/-! # The texts that parse

The grammar of a version is `v?N.N.N(-PRE)?(+BUILD)?`. The numbers are extracted from a stream,
which skips white space before each number and each dot and leaves alone what follows the third
number, and the labels are taken as they come. So more texts parse than those of the grammar.
-/

namespace ProtoJS.Npm

open Strings

/-- Digits that denote an `int`. -/
def IsNumeral (digits : Text) : Prop :=
  digits ≠ [] ∧ (∀ c ∈ digits, c.isDigit) ∧ Nat.ofDigitChars 10 digits 0 < 2 ^ 31

/-- A text with a `v` in front of it if `leadingV`. -/
def withV (leadingV : Bool) (text : Text) : Text := if leadingV then 'v' :: text else text

/-- The grammar of a version. -/
def IsVersion (version : Text) : Prop :=
  ∃ (leadingV : Bool) (major minor patch : Text) (prerelease build : Option Label),
    IsNumeral major ∧ IsNumeral minor ∧ IsNumeral patch ∧
      version = withV leadingV (major ++ '.' :: (minor ++ '.' :: patch) ++
        labelText '-' (prerelease.map Label.text) ++ labelText '+' (build.map Label.text))

/-- The numbers of a version with what the stream skips between them, and with what is ignored
behind them. -/
structure ReadNumbers where
  major : SpacedNumeral
  beforeDot1 : Text
  minor : SpacedNumeral
  beforeDot2 : Text
  patch : SpacedNumeral
  ignored : Text
  space1 : ∀ c ∈ beforeDot1, isSpace c
  space2 : ∀ c ∈ beforeDot2, isSpace c
  ends : EndsDigits ignored

def ReadNumbers.text (numbers : ReadNumbers) : Text :=
  numbers.major.text ++ (numbers.beforeDot1 ++ '.' :: (numbers.minor.text ++
    (numbers.beforeDot2 ++ '.' :: (numbers.patch.text ++ numbers.ignored))))

/-- A version text as `parse` reads it. -/
structure ReadText where
  numbers : ReadNumbers
  prerelease : Option Text
  build : Option Text
  noMinus : '-' ∉ numbers.ignored
  noPlus : '+' ∉ numbers.ignored
  preNoPlus : '+' ∉ prerelease.getD []

namespace ReadText

def text (read : ReadText) : Text :=
  read.numbers.text ++ labelText '-' read.prerelease ++ labelText '+' read.build

def version (read : ReadText) : Version where
  major := read.numbers.major.value
  minor := read.numbers.minor.value
  patch := read.numbers.patch.value
  prerelease := read.prerelease.getD []
  build := read.build.getD []

end ReadText

/-- The texts that `parse` can read, white space and all. -/
def IsReadable (version : Text) : Prop :=
  ∃ (leadingV : Bool) (read : ReadText), version = withV leadingV read.text

namespace Semver

section Numbers

variable {text : Text} {major minor patch : ℤ}

theorem endsDigits_spaces {spaces rest : Text} (allSpace : ∀ c ∈ spaces, isSpace c) :
    EndsDigits (spaces ++ '.' :: rest) := by
  intro c head
  cases spaces with
  | nil =>
    obtain rfl : '.' = c := Option.some.inj head
    decide
  | cons d spaces =>
    obtain rfl : d = c := Option.some.inj head
    rw [Bool.eq_false_iff]
    intro digit
    have space := allSpace d List.mem_cons_self
    rw [isSpace_eq_false_of_isDigit digit] at space
    exact absurd space (by decide)

theorem parseNumbers_text (numbers : ReadNumbers) :
    parseNumbers numbers.text = some ((numbers.major.value : ℤ), (numbers.minor.value : ℤ),
      (numbers.patch.value : ℤ)) := by
  have dot {spaces rest : Text} (allSpace : ∀ c ∈ spaces, isSpace c) :
      extractChar (spaces ++ '.' :: rest) = some ('.', rest) :=
    extractChar_spaces allSpace (by decide)
  simp only [parseNumbers, ReadNumbers.text,
    extractInt_numeral _ (endsDigits_spaces numbers.space1), dot numbers.space1,
    extractInt_numeral _ (endsDigits_spaces numbers.space2),
    dot numbers.space2, extractInt_numeral _ numbers.ends, Option.bind_eq_bind, Option.bind_some,
    ne_eq, not_true_eq_false, or_self, if_false]

theorem exists_numbers_of_parseNumbers (noMinus : '-' ∉ text) (noPlus : '+' ∉ text)
    (parsed : parseNumbers text = some (major, minor, patch)) :
    ∃ numbers : ReadNumbers, text = numbers.text ∧ major = numbers.major.value ∧
      minor = numbers.minor.value ∧ patch = numbers.patch.value := by
  simp only [parseNumbers, Option.bind_eq_bind, Option.bind_eq_some_iff] at parsed
  obtain ⟨⟨_, rest⟩, read, ⟨dot1, rest1⟩, readDot1, ⟨_, rest2⟩, readMinor, ⟨dot2, rest3⟩, readDot2,
    ⟨_, rest4⟩, readPatch, parsed⟩ := parsed
  dsimp only at readDot1 readMinor readDot2 readPatch parsed
  split_ifs at parsed with dots
  obtain ⟨rfl, rfl⟩ : dot1 = '.' ∧ dot2 = '.' := by simpa [not_or] using dots
  obtain ⟨rfl, rfl, rfl⟩ : _ = major ∧ _ = minor ∧ _ = patch := by simpa using parsed
  obtain ⟨first, rfl, rfl, -⟩ := exists_numeral_of_extractInt noMinus noPlus read
  obtain ⟨beforeDot1, rfl, space1⟩ := exists_spaces_of_extractChar readDot1
  have inside {c : Char} (noDot : c ≠ '.')
      (absent : c ∉ first.text ++ (beforeDot1 ++ '.' :: rest1)) : c ∉ rest1 := by
    simp only [List.mem_append, List.mem_cons, not_or] at absent
    exact absent.2.2.2
  obtain ⟨second, rfl, rfl, -⟩ := exists_numeral_of_extractInt (inside (by decide) noMinus)
    (inside (by decide) noPlus) readMinor
  obtain ⟨beforeDot2, rfl, space2⟩ := exists_spaces_of_extractChar readDot2
  simp only [List.mem_append, List.mem_cons, not_or] at noMinus noPlus
  obtain ⟨third, rfl, rfl, ends⟩ := exists_numeral_of_extractInt (by simp [noMinus])
    (by simp [noPlus]) readPatch
  exact ⟨⟨first, beforeDot1, second, beforeDot2, third, rest4, space1, space2, ends⟩, rfl, rfl,
    rfl, rfl⟩

theorem not_mem_text (numbers : ReadNumbers) {c : Char} (noSpace : isSpace c = false)
    (noDigit : c.isDigit = false) (noDot : c ≠ '.') (ignored : c ∉ numbers.ignored) :
    c ∉ numbers.text := by
  have absent (spaces : Text) (allSpace : ∀ d ∈ spaces, isSpace d) : c ∉ spaces := by
    intro member
    rw [allSpace c member] at noSpace
    exact absurd noSpace (by decide)
  simp [ReadNumbers.text, SpacedNumeral.not_mem_text _ noSpace noDigit, noDot, ignored,
    absent _ numbers.space1, absent _ numbers.space2]

/-- What `parse` reads first of the numbers is white space or a digit. -/
theorem head_text (numbers : ReadNumbers) :
    ∃ c rest, numbers.text = c :: rest ∧ (isSpace c ∨ c.isDigit) := by
  have nonempty := numbers.major.nonempty
  have allSpace := numbers.major.allSpace
  have allDigits := numbers.major.allDigits
  rw [ReadNumbers.text, SpacedNumeral.text]
  cases spaces : numbers.major.spaces with
  | cons c rest =>
    rw [spaces] at allSpace
    exact ⟨c, _, rfl, .inl (allSpace c List.mem_cons_self)⟩
  | nil =>
    cases digits : numbers.major.digits with
    | nil => exact absurd digits nonempty
    | cons c rest =>
      rw [digits] at allDigits
      exact ⟨c, _, rfl, .inr (allDigits c List.mem_cons_self)⟩

end Numbers

section Texts

variable {version : Text}

theorem withoutV_withV (leadingV : Bool) {text : Text} (noV : text.head? ≠ some 'v') :
    withoutV (withV leadingV text) = text := by
  cases leadingV with
  | false => rw [withV, if_neg Bool.false_ne_true, withoutV, if_neg noV]
  | true => rfl

/-- `parse` throws on a readable text exactly when its only `-` stands in the build. -/
theorem parse_withV (leadingV : Bool) (read : ReadText) :
    parse (withV leadingV read.text) =
      if read.prerelease = none ∧ '-' ∈ read.build.getD [] then .error .substr
      else .ok (some read.version) := by
  have noV : read.text.head? ≠ some 'v' := by
    obtain ⟨c, rest, first, kind⟩ := head_text read.numbers
    rw [ReadText.text, first]
    intro head
    obtain rfl : c = 'v' := Option.some.inj head
    exact absurd kind (by decide)
  have parsed := parse_of_withoutV read.prerelease read.build (withoutV_withV leadingV noV)
    (not_mem_text read.numbers (by decide) (by decide) (by decide) read.noMinus)
    (not_mem_text read.numbers (by decide) (by decide) (by decide) read.noPlus) read.preNoPlus
  rw [ReadText.text, parsed, parseNumbers_text]
  rfl

/-- Every text is cut at its first `+`, and what is before it at its first `-`. -/
theorem exists_cut (text : Text) :
    ∃ numbers prerelease build,
      text = numbers ++ labelText '-' prerelease ++ labelText '+' build ∧
        '-' ∉ numbers ∧ '+' ∉ numbers ∧ '+' ∉ prerelease.getD [] := by
  obtain ⟨front, build, rfl, noPlus⟩ :
      ∃ front build, text = front ++ labelText '+' build ∧ '+' ∉ front := by
    by_cases plus : '+' ∈ text
    · obtain ⟨front, build, cut, noPlus⟩ := List.eq_append_cons_of_mem plus
      exact ⟨front, some build, cut, noPlus⟩
    · exact ⟨text, none, (List.append_nil text).symm, plus⟩
  by_cases minus : '-' ∈ front
  · obtain ⟨numbers, prerelease, rfl, noMinus⟩ := List.eq_append_cons_of_mem minus
    simp only [List.mem_append, List.mem_cons, not_or] at noPlus
    exact ⟨numbers, some prerelease, build, rfl, noMinus, noPlus.1, noPlus.2.2⟩
  · exact ⟨front, none, build, by rw [labelText, List.append_nil], minus, noPlus, by simp⟩

theorem exists_withV (version : Text) :
    ∃ leadingV, version = withV leadingV (withoutV version) := by
  by_cases leading : version.head? = some 'v'
  · refine ⟨true, ?_⟩
    obtain ⟨rest, rfl⟩ := List.head?_eq_some_iff.1 leading
    rfl
  · exact ⟨false, by rw [withoutV, if_neg leading]; rfl⟩

/-- What parses is readable, and the result is what has been read. -/
theorem parse_eq_some_iff {parsed : Version} :
    parse version = .ok (some parsed) ↔ ∃ (leadingV : Bool) (read : ReadText),
      version = withV leadingV read.text ∧
        ¬ (read.prerelease = none ∧ '-' ∈ read.build.getD []) ∧ parsed = read.version := by
  constructor
  · intro accepted
    obtain ⟨leadingV, leading⟩ := exists_withV version
    obtain ⟨text, prerelease, build, cut, noMinus, noPlus, preNoPlus⟩ :=
      exists_cut (withoutV version)
    rw [parse_of_withoutV prerelease build cut noMinus noPlus preNoPlus] at accepted
    split_ifs at accepted with stray
    obtain ⟨⟨major, minor, patch⟩, numbersParsed, rfl⟩ :=
      Option.map_eq_some_iff.1 (Except.ok.inj accepted)
    obtain ⟨numbers, rfl, rfl, rfl, rfl⟩ :=
      exists_numbers_of_parseNumbers noMinus noPlus numbersParsed
    have ignored {c : Char} (absent : c ∉ numbers.text) : c ∉ numbers.ignored := by
      simp only [ReadNumbers.text, List.mem_append, List.mem_cons, not_or] at absent
      tauto
    refine ⟨leadingV, ⟨numbers, prerelease, build, ignored noMinus, ignored noPlus, preNoPlus⟩, ?_,
      stray, rfl⟩
    rw [leading, cut]
    rfl
  · rintro ⟨leadingV, read, rfl, unstray, rfl⟩
    rw [parse_withV, if_neg unstray]

/-- The texts of the grammar are readable. -/
theorem isReadable_of_isVersion (isVersion : IsVersion version) : IsReadable version := by
  obtain ⟨leadingV, major, minor, patch, prerelease, build, majorN, minorN, patchN, rfl⟩ :=
    isVersion
  have numeral {digits : Text} (is : IsNumeral digits) :
      ∃ n : SpacedNumeral, n.text = digits :=
    ⟨⟨[], digits, by simp, is.1, is.2.1, is.2.2⟩, rfl⟩
  obtain ⟨first, rfl⟩ := numeral majorN
  obtain ⟨second, rfl⟩ := numeral minorN
  obtain ⟨third, rfl⟩ := numeral patchN
  have preNoPlus : '+' ∉ (prerelease.map Label.text).getD [] := by
    cases prerelease with
    | none => simp
    | some label => exact label.plus_not_mem
  refine ⟨leadingV, ⟨⟨first, [], second, [], third, [], by simp, by simp, by simp [EndsDigits]⟩,
    prerelease.map Label.text, build.map Label.text, by simp, by simp, preNoPlus⟩, ?_⟩
  rw [ReadText.text, ReadNumbers.text, List.append_nil]
  rfl

/-- `parse` decides the grammar on a text exactly when it does not throw, which it does if the first
`-` comes after the first `+`, and the text is not one of those that can be read without being in
the grammar. -/
theorem parse_decides_iff (version : Text) :
    ((IsVersion version → ∃ parsed, parse version = .ok (some parsed)) ∧
        (¬ IsVersion version → parse version = .ok none)) ↔
      (¬ ∃ buildPos prereleasePos, find '+' (withoutV version) = some buildPos ∧
          find '-' (withoutV version) = some prereleasePos ∧ buildPos < prereleasePos) ∧
        (IsReadable version → IsVersion version) := by
  rw [← parse_eq_error_iff]
  constructor
  · rintro ⟨accepts, rejects⟩
    constructor
    · intro thrown
      by_cases isVersion : IsVersion version
      · obtain ⟨parsed, accepted⟩ := accepts isVersion
        rw [thrown] at accepted
        exact absurd accepted (by simp)
      · rw [thrown] at rejects
        exact absurd (rejects isVersion) (by simp)
    · rintro ⟨leadingV, read, rfl⟩
      by_contra outside
      have rejected := rejects outside
      rw [parse_withV] at rejected
      split_ifs at rejected
      exact absurd rejected (by simp)
  · rintro ⟨noThrow, readableOnly⟩
    constructor
    · intro isVersion
      obtain ⟨leadingV, read, rfl⟩ := isReadable_of_isVersion isVersion
      rw [parse_withV] at noThrow ⊢
      split_ifs with stray
      · rw [if_pos stray] at noThrow
        exact absurd rfl noThrow
      · exact ⟨_, rfl⟩
    · intro outside
      cases result : parse version with
      | error e => exact absurd result noThrow
      | ok parsed =>
        cases parsed with
        | none => rfl
        | some parsed =>
          obtain ⟨leadingV, read, same, -⟩ := parse_eq_some_iff.1 result
          exact absurd (readableOnly ⟨leadingV, read, same⟩) outside

theorem head_of_isVersion {c : Char} (isVersion : IsVersion version)
    (head : version.head? = some c) : c = 'v' ∨ c.isDigit := by
  obtain ⟨leadingV, major, minor, patch, prerelease, build, ⟨nonempty, allDigits, -⟩, -, -, rfl⟩ :=
    isVersion
  cases leadingV with
  | true => exact .inl (Option.some.inj head).symm
  | false =>
    right
    rw [withV, if_neg Bool.false_ne_true, List.append_assoc, List.append_assoc,
      List.head?_append_of_ne_nil _ nonempty] at head
    exact allDigits c (List.mem_of_mem_head? head)

/-- White space in front of the numbers is skipped. -/
theorem parse_spaced :
    parse " 1.2.3".toList = .ok (some ⟨1, 2, 3, [], []⟩) ∧ ¬ IsVersion " 1.2.3".toList ∧
      ¬ ∀ version, (IsVersion version → ∃ parsed, parse version = .ok (some parsed)) ∧
        (¬ IsVersion version → parse version = .ok none) := by
  have accepted : parse " 1.2.3".toList = .ok (some ⟨1, 2, 3, [], []⟩) := by decide
  have outside : ¬ IsVersion " 1.2.3".toList := by
    intro isVersion
    exact absurd (head_of_isVersion (c := ' ') isVersion (by decide)) (by decide)
  refine ⟨accepted, outside, ?_⟩
  intro decides
  have rejected := (decides " 1.2.3".toList).2 outside
  rw [accepted] at rejected
  exact absurd rejected (by simp)

end Texts

end Semver

end ProtoJS.Npm
