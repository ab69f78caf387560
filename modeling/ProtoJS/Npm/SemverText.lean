import ProtoJS.Npm.Semver

/-! # Reading a version back from its text

A version text is `M.m.p`, followed by `-` and a pre-release and by `+` and a build. `parse` looks
for the two separators in the whole text before it cuts anything. A `-` that occurs in the build
only is therefore taken for the separator of the pre-release, at a position that the cut at the
`+` has removed.
-/

namespace ProtoJS.Npm

open Strings

/-- The characters of a pre-release and of a build. -/
def isLabelChar (c : Char) : Bool := c.isAlphanum || c = '.' || c = '-'

/-- A pre-release or a build as it stands in a version text. -/
structure Label where
  text : Text
  nonempty : text ≠ []
  allowed : ∀ c ∈ text, isLabelChar c

theorem Label.plus_not_mem (label : Label) : '+' ∉ label.text := by
  intro member
  exact absurd (label.allowed _ member) (by decide)

/-- `M.m.p`. -/
def numbersText (major minor patch : ℕ) : Text :=
  decimal major ++ '.' :: (decimal minor ++ '.' :: decimal patch)

/-- A separator and what it introduces, or nothing. -/
def labelText (separator : Char) : Option Text → Text
  | none => []
  | some text => separator :: text

/-- What a version text says, with the numbers that fit into an `int`. -/
structure VersionText where
  major : ℕ
  minor : ℕ
  patch : ℕ
  prerelease : Option Label
  build : Option Label
  major_lt : major < 2 ^ 31
  minor_lt : minor < 2 ^ 31
  patch_lt : patch < 2 ^ 31

namespace VersionText

def text (s : VersionText) : Text :=
  numbersText s.major s.minor s.patch ++ labelText '-' (s.prerelease.map Label.text) ++
    labelText '+' (s.build.map Label.text)

def version (s : VersionText) : Version where
  major := s.major
  minor := s.minor
  patch := s.patch
  prerelease := ((s.prerelease.map Label.text).getD [])
  build := ((s.build.map Label.text).getD [])

end VersionText

section Find

variable {c : Char} {text rest : Text}

theorem find_eq_none_iff : find c text = none ↔ c ∉ text := by
  simp only [find, List.findIdx?_eq_none_iff, beq_eq_false_iff_ne]
  constructor
  · intro absent member
    exact absent c member rfl
  · rintro absent d member rfl
    exact absent member

theorem find_append_cons (absent : c ∉ text) : find c (text ++ c :: rest) = some text.length := by
  have before : text.findIdx? (· == c) = none := find_eq_none_iff.2 absent
  simp [find, List.findIdx?_append, before, List.findIdx?_cons]

theorem find_append_of_not_mem (absent : c ∉ text) :
    find c (text ++ rest) = (find c rest).map (· + text.length) := by
  have before : text.findIdx? (· == c) = none := find_eq_none_iff.2 absent
  simp [find, List.findIdx?_append, before]

theorem lt_length_of_find {position : ℕ} (found : find c text = some position) :
    position < text.length := by
  obtain ⟨bound, -⟩ := List.findIdx?_eq_some_iff_getElem.1 found
  exact bound

end Find

namespace Semver

section Parse

variable {version : Text}

@[simp] theorem cutAt_none : cutAt none version = .ok ([], version) := rfl

theorem cutAt_of_lt {pos : ℕ} (inside : pos < version.length) :
    cutAt (some pos) version = .ok (version.drop (pos + 1), version.take pos) := by
  rw [cutAt, substr, if_pos (by omega)]
  rfl

theorem cutAt_of_le {pos : ℕ} (outside : version.length ≤ pos) :
    cutAt (some pos) version = .error .substr := by
  rw [cutAt, substr, if_neg (by omega)]
  rfl

theorem cutAt_append {text rest : Text} {c : Char} :
    cutAt (some text.length) (text ++ c :: rest) = .ok (rest, text) := by
  rw [cutAt_of_lt (by simp)]
  simp

/-- The two separators are different characters, so they stand at different positions. -/
theorem find_ne_find {c d : Char} {i j : ℕ} (differ : c ≠ d) (first : find c version = some i)
    (second : find d version = some j) : i ≠ j := by
  rintro rfl
  obtain ⟨_, atFirst, -⟩ := List.findIdx?_eq_some_iff_getElem.1 first
  obtain ⟨_, atSecond, -⟩ := List.findIdx?_eq_some_iff_getElem.1 second
  rw [beq_iff_eq] at atFirst atSecond
  exact differ (atFirst.symm.trans atSecond)

/-- `parse` throws when the first `-` comes after the first `+`. -/
theorem parse_eq_error_iff :
    parse version = .error .substr ↔ ∃ buildPos prereleasePos,
      find '+' (withoutV version) = some buildPos ∧
        find '-' (withoutV version) = some prereleasePos ∧ buildPos < prereleasePos := by
  rw [parse]
  cases build : find '+' (withoutV version) with
  | none =>
    cases pre : find '-' (withoutV version) with
    | none => simp [bind, Except.bind, pure, Except.pure]
    | some j =>
      simp [cutAt_of_lt (lt_length_of_find pre), bind, Except.bind, pure, Except.pure]
  | some i =>
    have inside := lt_length_of_find build
    rw [cutAt_of_lt inside]
    cases pre : find '-' (withoutV version) with
    | none => simp [bind, Except.bind, pure, Except.pure]
    | some j =>
      have apart := find_ne_find (by decide) build pre
      have length : ((withoutV version).take i).length = i := by simp; omega
      rcases lt_or_gt_of_ne apart with after | before
      · simp [cutAt_of_le (length.trans_le after.le), bind, Except.bind, after]
      · simp [cutAt_of_lt (before.trans_eq length.symm), bind, Except.bind, pure, Except.pure,
          before.le]

end Parse

section Labels

variable {numbers : Text}

theorem withoutV_append {rest : Text} (nonempty : numbers ≠ []) (noV : numbers.head? ≠ some 'v') :
    withoutV (numbers ++ rest) = numbers ++ rest := by
  rw [withoutV, List.head?_append_of_ne_nil _ nonempty, if_neg noV]

/-- `parse` on numbers with their labels: it throws exactly on a build with a `-` that no
pre-release comes before. -/
theorem parse_of_withoutV {version : Text} (prerelease build : Option Text)
    (cut : withoutV version = numbers ++ labelText '-' prerelease ++ labelText '+' build)
    (noMinus : '-' ∉ numbers) (noPlus : '+' ∉ numbers) (preNoPlus : '+' ∉ prerelease.getD []) :
    parse version =
      if prerelease = none ∧ '-' ∈ build.getD [] then .error .substr
      else .ok ((parseNumbers numbers).map fun (major, minor, patch) =>
        ⟨major, minor, patch, prerelease.getD [], build.getD []⟩) := by
  rw [parse, cut, List.append_assoc]
  cases prerelease with
  | none =>
    cases build with
    | none =>
      simp [labelText, find_eq_none_iff.2 noMinus, find_eq_none_iff.2 noPlus, bind, Except.bind,
        pure, Except.pure]
    | some build =>
      simp only [labelText, List.nil_append, find_append_cons noPlus,
        find_append_of_not_mem noMinus, cutAt_append, bind, Except.bind, Option.getD_some, true_and]
      have afterPlus : find '-' ('+' :: build) = (find '-' build).map (· + 1) := by
        simp [find, List.findIdx?_cons]
      rw [afterPlus]
      cases minus : find '-' build with
      | none =>
        rw [if_neg (find_eq_none_iff.1 minus)]
        rfl
      | some i =>
        have member : '-' ∈ build := by
          by_contra absent
          rw [find_eq_none_iff.2 absent] at minus
          exact absurd minus (by simp)
        rw [if_pos member]
        simp [cutAt_of_le]
  | some prerelease =>
    have preNoPlus : '+' ∉ numbers ++ '-' :: prerelease := by simpa [noPlus] using preNoPlus
    cases build with
    | none =>
      simp [labelText, find_eq_none_iff.2 preNoPlus, find_append_cons noMinus, cutAt_append,
        bind, Except.bind, pure, Except.pure]
    | some build =>
      have cutBuild : cutAt (some (numbers ++ '-' :: prerelease).length)
          ((numbers ++ '-' :: prerelease) ++ '+' :: build) = .ok (build, numbers ++ '-' :: prerelease) :=
        cutAt_append
      have findBuild : find '+' ((numbers ++ '-' :: prerelease) ++ '+' :: build) =
          some (numbers ++ '-' :: prerelease).length := find_append_cons preNoPlus
      rw [List.append_assoc, List.cons_append, List.length_append, List.length_cons]
        at cutBuild findBuild
      simp [labelText, findBuild, cutBuild, find_append_cons noMinus, cutAt_append, bind,
        Except.bind, pure, Except.pure]

theorem parse_append_labels (nonempty : numbers ≠ []) (noV : numbers.head? ≠ some 'v')
    (noMinus : '-' ∉ numbers) (noPlus : '+' ∉ numbers) (prerelease build : Option Text)
    (preNoPlus : '+' ∉ prerelease.getD []) :
    parse (numbers ++ labelText '-' prerelease ++ labelText '+' build) =
      if prerelease = none ∧ '-' ∈ build.getD [] then .error .substr
      else .ok ((parseNumbers numbers).map fun (major, minor, patch) =>
        ⟨major, minor, patch, prerelease.getD [], build.getD []⟩) := by
  apply parse_of_withoutV _ _ _ noMinus noPlus preNoPlus
  rw [List.append_assoc, withoutV_append nonempty noV]

end Labels

section Numbers

variable {major minor patch : ℕ}

theorem not_mem_numbersText {c : Char} (noDigit : c.isDigit = false) (noDot : c ≠ '.') :
    c ∉ numbersText major minor patch := by
  have absent (n : ℕ) : c ∉ decimal n := by
    intro member
    rw [isDigit_of_mem_decimal member] at noDigit
    exact absurd noDigit (by decide)
  simp [numbersText, absent, noDot]

theorem numbersText_ne_nil : numbersText major minor patch ≠ [] := by
  simp [numbersText]

theorem head_numbersText_ne_v : (numbersText major minor patch).head? ≠ some 'v' := by
  intro same
  exact not_mem_numbersText (by decide) (by decide) (List.mem_of_mem_head? same)

theorem parseNumbers_numbersText (majorBound : major < 2 ^ 31) (minorBound : minor < 2 ^ 31)
    (patchBound : patch < 2 ^ 31) :
    parseNumbers (numbersText major minor patch) = some ((major : ℤ), (minor : ℤ), (patch : ℤ)) := by
  have dot (rest : Text) : EndsDigits ('.' :: rest) := by
    intro c same
    obtain rfl : '.' = c := Option.some.inj same
    decide
  have last : extractInt (decimal patch) = some ((patch : ℤ), []) := by
    have ends : EndsDigits [] := by simp [EndsDigits]
    have read := extractInt_decimal_append patchBound ends
    rwa [List.append_nil] at read
  have space : isSpace '.' = false := by decide
  simp [parseNumbers, numbersText, extractInt_decimal_append majorBound (dot _),
    extractInt_decimal_append minorBound (dot _), extractChar_cons space, last]

end Numbers

variable (s : VersionText)

/-- `parse` reads a version text back, but for a `-` in the build of a text without a
pre-release. -/
theorem parse_text :
    parse s.text =
      if s.prerelease = none ∧ '-' ∈ (s.build.map Label.text).getD [] then .error .substr
      else .ok (some s.version) := by
  have preNoPlus : '+' ∉ (s.prerelease.map Label.text).getD [] := by
    cases s.prerelease with
    | none => simp
    | some label => exact label.plus_not_mem
  rw [VersionText.text, parse_append_labels numbersText_ne_nil head_numbersText_ne_v
    (not_mem_numbersText (by decide) (by decide)) (not_mem_numbersText (by decide) (by decide)) _ _
    preNoPlus, parseNumbers_numbersText s.major_lt s.minor_lt s.patch_lt]
  simp only [Option.map_eq_none_iff, Option.map_some]
  rfl

theorem text_head_ne_v : s.text.head? ≠ some 'v' := by
  rw [VersionText.text, List.append_assoc, List.head?_append_of_ne_nil _ numbersText_ne_nil]
  exact head_numbersText_ne_v

theorem parse_cons_v {version : Text} (noV : version.head? ≠ some 'v') :
    parse ('v' :: version) = parse version := by
  have same : withoutV ('v' :: version) = withoutV version := by
    rw [withoutV, withoutV, if_neg noV]
    rfl
  rw [parse, parse, same]

/-- The text of a version, with a `v` in front of it if `leadingV`. -/
def written (leadingV : Bool) : Text := if leadingV then 'v' :: s.text else s.text

theorem parse_written (leadingV : Bool) : parse (written s leadingV) = parse s.text := by
  cases leadingV with
  | false => rfl
  | true => exact parse_cons_v (text_head_ne_v s)

/-- No `-` of the build is taken for the separator of a pre-release. -/
theorem no_stray_minus_iff :
    ¬ (s.prerelease = none ∧ '-' ∈ (s.build.map Label.text).getD []) ↔
      s.prerelease.isSome ∨ s.build = none ∨ ∃ build ∈ s.build, '-' ∉ build.text := by
  cases s.prerelease with
  | some _ => simp
  | none =>
    cases s.build with
    | none => simp
    | some build => simp

/-- The round trip succeeds when there is a pre-release, or no build, or a build without `-`. -/
theorem parse_written_eq_iff (leadingV : Bool) :
    parse (written s leadingV) = .ok (some s.version) ↔
      s.prerelease.isSome ∨ s.build = none ∨ ∃ build ∈ s.build, '-' ∉ build.text := by
  rw [parse_written, parse_text, ← no_stray_minus_iff]
  split_ifs with stray <;> simp [stray]

/-- `1.0.0+b-1`. -/
def hyphenBuild : VersionText where
  major := 1
  minor := 0
  patch := 0
  prerelease := none
  build := some ⟨['b', '-', '1'], by simp, by simp [isLabelChar]⟩
  major_lt := by decide
  minor_lt := by decide
  patch_lt := by decide

theorem parse_hyphenBuild :
    written hyphenBuild false = "1.0.0+b-1".toList ∧
      parse (written hyphenBuild false) = .error .substr ∧
      ¬ ∀ (s : VersionText) (leadingV : Bool), parse (written s leadingV) = .ok (some s.version) := by
  refine ⟨by decide, by decide, ?_⟩
  intro roundTrip
  exact absurd (roundTrip hyphenBuild false) (by decide)

theorem labelText_map_text (separator : Char) (label : Option Label) :
    (if (label.map Label.text).getD [] = [] then []
      else separator :: (label.map Label.text).getD []) =
      labelText separator (label.map Label.text) := by
  cases label with
  | none => rfl
  | some label => simp [label.nonempty, labelText]

/-- `normalize` drops the leading `v` of a version text and changes nothing else of it. -/
theorem normalize_written (leadingV : Bool)
    (readable : s.prerelease.isSome ∨ s.build = none ∨ ∃ build ∈ s.build, '-' ∉ build.text) :
    normalize (written s leadingV) = .ok s.text := by
  have read : parse (written s leadingV) = .ok (some s.version) := by
    rw [parse_written, parse_text, if_neg ((no_stray_minus_iff s).2 readable)]
  simp only [normalize, read, bind, Except.bind, pure, Except.pure, VersionText.version,
    Int.natAbs_natCast]
  rw [labelText_map_text '-' s.prerelease, labelText_map_text '+' s.build]
  simp [VersionText.text, numbersText]

end Semver

end ProtoJS.Npm
