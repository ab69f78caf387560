import ProtoJS.Npm.SemverOrder
import ProtoJS.Strings.DecimalOrder

/-! # The precedence of semantic versions

A semantic version is well formed when it is the text of a `SemVer`. Its precedence compares the
numbers, puts a pre-release under its release and compares pre-releases identifier by identifier.
`compare` has the pre-releases as whole texts instead. The two agree but for some pairs, which are
told apart at the first identifiers that are not the same.
-/

namespace ProtoJS.Npm

open Strings

/-- The characters of an identifier. -/
def isIdentifierChar (c : Char) : Bool := c.isAlphanum || c = '-'

/-- An identifier of a pre-release. A numeric one stands in decimal form, without leading zeros. -/
inductive Identifier where
  | numeric (value : ℕ)
  | alphanumeric (text : Text) (allowed : ∀ c ∈ text, isIdentifierChar c)
    (nonDigit : ∃ c ∈ text, c.isDigit = false)

/-- An identifier of a build. -/
structure BuildIdentifier where
  text : Text
  nonempty : text ≠ []
  allowed : ∀ c ∈ text, isIdentifierChar c

/-- Texts with dots between them. -/
def dotted : List Text → Text
  | [] => []
  | first :: rest => first ++ rest.flatMap ('.' :: ·)

namespace Identifier

def text : Identifier → Text
  | numeric value => decimal value
  | alphanumeric text _ _ => text

/-- Numeric identifiers are ordered as numbers and come before the others, which are ordered as
texts. -/
def rank : Identifier → ℕ ⊕ₗ Text
  | numeric value => Sum.inlₗ value
  | alphanumeric text _ _ => Sum.inrₗ text

end Identifier

/-- A version that is well formed, with numbers that fit into an `int`. Without a pre-release or
without a build the list is empty. -/
structure SemVer where
  major : ℕ
  minor : ℕ
  patch : ℕ
  prerelease : List Identifier
  build : List BuildIdentifier
  major_lt : major < 2 ^ 31
  minor_lt : minor < 2 ^ 31
  patch_lt : patch < 2 ^ 31

namespace SemVer

variable (s : SemVer)

def prereleaseText : Option Text :=
  if s.prerelease = [] then none else some (dotted (s.prerelease.map Identifier.text))

def buildText : Option Text :=
  if s.build = [] then none else some (dotted (s.build.map BuildIdentifier.text))

def text : Text :=
  numbersText s.major s.minor s.patch ++ labelText '-' s.prereleaseText ++ labelText '+' s.buildText

/-- A release is above its pre-releases. A list that goes on is above the list that ends. -/
def prereleaseRank : WithTop (List (ℕ ⊕ₗ Text)) :=
  if s.prerelease = [] then ⊤ else s.prerelease.map Identifier.rank

/-- Precedence is the order of the ranks. -/
def rank : ℕ ×ₗ ℕ ×ₗ ℕ ×ₗ WithTop (List (ℕ ⊕ₗ Text)) :=
  toLex (s.major, toLex (s.minor, toLex (s.patch, s.prereleaseRank)))

def version : Version where
  major := s.major
  minor := s.minor
  patch := s.patch
  prerelease := s.prereleaseText.getD []
  build := s.buildText.getD []

/-- The sign of the precedence of two versions. -/
def precedence (a b : SemVer) : ℤ := threeWay (order a.rank b.rank)

/-- There is a pre-release, or no identifier of the build has a hyphen. -/
def NoStrayMinus : Prop := s.prerelease ≠ [] ∨ ∀ identifier ∈ s.build, '-' ∉ identifier.text

end SemVer

/-- The texts of two identifiers that differ in `c` and `d` compare as the identifiers do. -/
def DifferenceAgrees (c d : Char) : Identifier → Identifier → Prop
  | .numeric n, .numeric m =>
    (decimal n).length = (decimal m).length ∨ ((decimal n).length < (decimal m).length ↔ c < d)
  | .numeric _, .alphanumeric .. => c < d
  | .alphanumeric .., .numeric _ => d < c
  | .alphanumeric .., .alphanumeric .. => True

/-- Two identifiers compare as their texts do, each with what comes after it. `aLast` and `bLast`
say that nothing comes after. -/
def IdentifiersAgree (a b : Identifier) (aLast bLast : Prop) : Divergence Char → Prop
  | .none => True
  | .leftEnds next => aLast ∨ next ≠ '-'
  | .rightEnds next => bLast ∨ next ≠ '-'
  | .differ c d => DifferenceAgrees c d a b

/-- Nothing goes wrong at the first identifiers that are not the same. -/
def PrereleasesAgree : List Identifier → List Identifier → Prop
  | a :: as, b :: bs =>
    if a.text = b.text then PrereleasesAgree as bs
    else IdentifiersAgree a b (as = []) (bs = []) (divergence a.text b.text)
  | _, _ => True

section Identifiers

variable {a b : Identifier}

theorem isIdentifierChar_of_isDigit {c : Char} (digit : c.isDigit) : isIdentifierChar c := by
  simp [isIdentifierChar, Char.isAlphanum, digit]

/-- A text that is not all digits is in no decimal form. -/
theorem exists_not_mem_decimal {text : Text} (nonDigit : ∃ c ∈ text, c.isDigit = false) (n : ℕ) :
    ∃ c ∈ text, c ∉ decimal n := by
  obtain ⟨c, member, noDigit⟩ := nonDigit
  refine ⟨c, member, ?_⟩
  intro inside
  rw [isDigit_of_mem_decimal inside] at noDigit
  exact absurd noDigit (by decide)

theorem Identifier.text_ne_nil (a : Identifier) : a.text ≠ [] := by
  cases a with
  | numeric value => exact decimal_ne_nil
  | alphanumeric text _ nonDigit =>
    obtain ⟨c, member, -⟩ := nonDigit
    exact List.ne_nil_of_mem member

theorem Identifier.allowed (a : Identifier) : ∀ c ∈ a.text, isIdentifierChar c := by
  intro c member
  cases a with
  | numeric value => exact isIdentifierChar_of_isDigit (isDigit_of_mem_decimal member)
  | alphanumeric text allowed _ => exact allowed c member

/-- Digits and letters come after the dot, and the hyphen comes before it. -/
theorem order_dot {c : Char} (allowed : isIdentifierChar c) :
    order '.' c = if c = '-' then .gt else .lt := by
  split_ifs with hyphen
  · subst hyphen
    decide
  · apply order_eq_lt.2
    have high : 48 ≤ c.toNat := by
      simp only [isIdentifierChar, hyphen, decide_false, Bool.or_false, Char.isAlphanum,
        Char.isAlpha, Char.isUpper, Char.isLower, Char.isDigit, Bool.or_eq_true, Bool.and_eq_true,
        decide_eq_true_eq, ge_iff_le, UInt32.le_iff_toNat_le] at allowed
      rcases allowed with (⟨low, -⟩ | ⟨low, -⟩) | ⟨low, -⟩
      · exact le_trans (by decide) low
      · exact le_trans (by decide) low
      · exact low
    rw [Char.lt_def, UInt32.lt_iff_toNat_lt]
    change 46 < c.toNat
    omega

/-- What comes after an identifier: the end, or a dot. -/
def EndsIdentifier (rest : Text) : Prop := rest = [] ∨ ∃ more, rest = '.' :: more

/-- An identifier that goes on compares with the end or the dot after the shorter one. -/
theorem order_of_leftEnds {l more x y : Text} {d : Char} (allowed : isIdentifierChar d)
    (ends : EndsIdentifier x) :
    order (l ++ x) ((l ++ d :: more) ++ y) = .lt ↔ x = [] ∨ d ≠ '-' := by
  rw [List.append_assoc, order_append_left, List.cons_append]
  rcases ends with rfl | ⟨rest, rfl⟩
  · simp [order_nil_cons]
  · rw [order_cons_cons, order_dot allowed]
    split_ifs with hyphen <;> simp [hyphen]

/-- An identifier is below every identifier that its text is a proper start of. -/
theorem rank_lt_of_text_append {d : Char} {more : Text} (goesOn : b.text = a.text ++ d :: more) :
    a.rank < b.rank := by
  cases a with
  | numeric n =>
    cases b with
    | numeric m =>
      have shorter : (decimal n).length < (decimal m).length := by
        have length := congrArg List.length goesOn
        simp only [Identifier.text, List.length_append, List.length_cons] at length
        omega
      exact Sum.Lex.inl_lt_inl_iff.2 (lt_of_length_decimal_lt shorter)
    | alphanumeric => exact Sum.Lex.inl_lt_inr _ _
  | alphanumeric text _ nonDigit =>
    cases b with
    | numeric m =>
      obtain ⟨c, member, outside⟩ := exists_not_mem_decimal nonDigit m
      apply absurd _ outside
      change c ∈ (Identifier.numeric m).text
      rw [goesOn]
      exact List.mem_append_left _ member
    | alphanumeric text' _ _ =>
      have same : text' = text ++ d :: more := goesOn
      apply Sum.Lex.inr_lt_inr_iff.2
      rw [same, ← order_eq_lt]
      conv_lhs => arg 1; rw [← List.append_nil text]
      rw [order_append_left, order_nil_cons]

/-- The texts differ in a character before either ends. -/
theorem order_differ_iff {common l r x y : Text} {c d : Char} (ne : c ≠ d)
    (textA : a.text = common ++ c :: l) (textB : b.text = common ++ d :: r) :
    order (a.text ++ x) (b.text ++ y) = order a.rank b.rank ↔ DifferenceAgrees c d a b := by
  have compared : order (a.text ++ x) (b.text ++ y) = order c d := by
    rw [textA, textB, order_append_differ ne]
  have texts : order a.text b.text = order c d := by
    rw [textA, textB, order_append_left, order_cons_cons, order_then_of_ne ne]
  rw [compared]
  cases a with
  | numeric n =>
    cases b with
    | numeric m =>
      rw [show order (Identifier.numeric n).rank (Identifier.numeric m).rank = order n m from
        order_inl n m, DifferenceAgrees]
      rcases lt_trichotomy (decimal n).length (decimal m).length with less | same | more
      · rw [order_eq_lt.2 (lt_of_length_decimal_lt less), order_eq_lt]
        simp [less, less.ne]
      · rw [← order_decimal same]
        simp [same, ← texts, Identifier.text]
      · rw [order_eq_gt.2 (lt_of_length_decimal_lt more), order_eq_gt]
        simp only [more.not_gt, more.ne', false_or, false_iff, not_lt]
        exact ⟨le_of_lt, fun le => lt_of_le_of_ne le ne.symm⟩
    | alphanumeric =>
      rw [Identifier.rank, Identifier.rank, order_inl_inr, order_eq_lt, DifferenceAgrees]
  | alphanumeric text _ _ =>
    cases b with
    | numeric =>
      rw [Identifier.rank, Identifier.rank, order_inr_inl, order_eq_gt, DifferenceAgrees]
    | alphanumeric text' _ _ =>
      rw [Identifier.rank, Identifier.rank, order_inr, ← texts]
      simp [Identifier.text, DifferenceAgrees]

/-- The longer text goes on where the shorter one has ended. -/
theorem order_leftEnds_iff {x y more : Text} {d : Char} (ends : EndsIdentifier x)
    (goesOn : b.text = a.text ++ d :: more) :
    order (a.text ++ x) (b.text ++ y) = order a.rank b.rank ↔ x = [] ∨ d ≠ '-' := by
  have allowed : isIdentifierChar d := by
    apply b.allowed
    rw [goesOn]
    simp
  rw [order_eq_lt.2 (rank_lt_of_text_append goesOn), goesOn]
  exact order_of_leftEnds allowed ends

theorem order_identifiers_iff {l r x y : Text} {place : Divergence Char} (differ : a.text ≠ b.text)
    (textA : a.text = l) (textB : b.text = r) (diverges : Diverges l r place)
    (aEnds : EndsIdentifier x) (bEnds : EndsIdentifier y) :
    order (a.text ++ x) (b.text ++ y) = order a.rank b.rank ↔
      IdentifiersAgree a b (x = []) (y = []) place := by
  cases diverges with
  | none => exact absurd (textA.trans textB.symm) differ
  | leftEnds _ d more => exact order_leftEnds_iff aEnds (by rw [textA, textB])
  | rightEnds _ c more =>
    rw [order_eq_swap_iff]
    exact order_leftEnds_iff bEnds (by rw [textA, textB])
  | differ common c d l r ne => exact order_differ_iff ne textA textB

end Identifiers

section Lists

/-- The texts of the identifiers, each after a dot. -/
def dottedTail (identifiers : List Identifier) : Text :=
  (identifiers.map Identifier.text).flatMap ('.' :: ·)

theorem dottedTail_cons (a : Identifier) (as : List Identifier) :
    dottedTail (a :: as) = '.' :: (a.text ++ dottedTail as) := by
  simp [dottedTail]

theorem dotted_cons (a : Identifier) (as : List Identifier) :
    dotted ((a :: as).map Identifier.text) = a.text ++ dottedTail as := rfl

theorem dottedTail_eq_nil {as : List Identifier} : dottedTail as = [] ↔ as = [] := by
  cases as with
  | nil => simp [dottedTail]
  | cons a as => simp [dottedTail_cons]

theorem endsIdentifier_dottedTail (as : List Identifier) : EndsIdentifier (dottedTail as) := by
  cases as with
  | nil => exact .inl rfl
  | cons a as => exact .inr ⟨_, dottedTail_cons a as⟩

theorem Identifier.rank_injective_on_text {a b : Identifier} (same : a.text = b.text) :
    a.rank = b.rank := by
  cases a with
  | numeric n =>
    cases b with
    | numeric m => rw [decimal_injective same]
    | alphanumeric text _ nonDigit =>
      obtain ⟨c, member, outside⟩ := exists_not_mem_decimal nonDigit n
      have texts : decimal n = text := same
      rw [texts] at outside
      exact absurd member outside
  | alphanumeric text _ nonDigit =>
    cases b with
    | numeric m =>
      obtain ⟨c, member, outside⟩ := exists_not_mem_decimal nonDigit m
      have texts : text = decimal m := same
      rw [← texts] at outside
      exact absurd member outside
    | alphanumeric text' _ _ =>
      obtain rfl : text = text' := same
      rfl

theorem Identifier.rank_ne_of_text_ne {a b : Identifier} (differ : a.text ≠ b.text) :
    a.rank ≠ b.rank := by
  intro same
  apply differ
  cases a <;> cases b <;> simp_all [Identifier.rank, Identifier.text]

/-- The induction goes along both lists and stops at the first identifiers that differ. -/
theorem order_dottedTail_iff (as bs : List Identifier) :
    order (dottedTail as) (dottedTail bs) =
        order (as.map Identifier.rank) (bs.map Identifier.rank) ↔ PrereleasesAgree as bs := by
  induction as generalizing bs with
  | nil =>
    cases bs with
    | nil => simp [PrereleasesAgree]
    | cons b bs =>
      rw [dottedTail_cons, List.map_cons]
      simp [dottedTail, order_nil_cons, PrereleasesAgree]
  | cons a as ih =>
    cases bs with
    | nil =>
      rw [dottedTail_cons, List.map_cons]
      simp [dottedTail, order_cons_nil, PrereleasesAgree]
    | cons b bs =>
      rw [dottedTail_cons, dottedTail_cons, List.map_cons, List.map_cons, order_cons_cons,
        order_self, Ordering.eq_then, order_cons_cons, PrereleasesAgree]
      split_ifs with same
      · rw [same, order_append_left, Identifier.rank_injective_on_text same, order_self,
          Ordering.eq_then]
        exact ih bs
      · rw [order_then_of_ne (Identifier.rank_ne_of_text_ne same), order_identifiers_iff same rfl
          rfl (diverges_divergence _ _) (endsIdentifier_dottedTail as)
          (endsIdentifier_dottedTail bs), dottedTail_eq_nil,
          dottedTail_eq_nil]

/-- Pre-releases compare as whole texts as they do identifier by identifier. -/
theorem order_dotted_iff {as bs : List Identifier} (aPresent : as ≠ []) (bPresent : bs ≠ []) :
    order (dotted (as.map Identifier.text)) (dotted (bs.map Identifier.text)) =
        order (as.map Identifier.rank) (bs.map Identifier.rank) ↔ PrereleasesAgree as bs := by
  rw [← order_dottedTail_iff]
  obtain ⟨a, as, rfl⟩ := List.exists_cons_of_ne_nil aPresent
  obtain ⟨b, bs, rfl⟩ := List.exists_cons_of_ne_nil bPresent
  rw [dottedTail_cons, dottedTail_cons, dotted_cons, dotted_cons, order_cons_cons, order_self,
    Ordering.eq_then]

end Lists

section Versions

variable (a b s : SemVer)

theorem mem_dotted {c : Char} (noDot : c ≠ '.') (texts : List Text) :
    c ∈ dotted texts ↔ ∃ text ∈ texts, c ∈ text := by
  cases texts with
  | nil => simp [dotted]
  | cons first rest => simp [dotted, List.mem_flatMap, noDot]

theorem plus_not_mem_prereleaseText : '+' ∉ s.prereleaseText.getD [] := by
  rw [SemVer.prereleaseText]
  split_ifs with release
  · simp
  · rw [Option.getD_some, mem_dotted (by decide)]
    rintro ⟨text, member, plus⟩
    obtain ⟨identifier, -, rfl⟩ := List.mem_map.1 member
    exact absurd (identifier.allowed _ plus) (by decide)

theorem noStrayMinus_iff :
    s.NoStrayMinus ↔ ¬ (s.prereleaseText = none ∧ '-' ∈ s.buildText.getD []) := by
  have release : s.prereleaseText = none ↔ s.prerelease = [] := by
    rw [SemVer.prereleaseText]
    split_ifs with empty <;> simp [empty]
  have build : '-' ∈ s.buildText.getD [] ↔ ∃ identifier ∈ s.build, '-' ∈ identifier.text := by
    rw [SemVer.buildText]
    split_ifs with empty
    · simp [empty]
    · simp [mem_dotted (show '-' ≠ '.' by decide)]
  rw [release, build, SemVer.NoStrayMinus]
  push Not
  exact or_iff_not_imp_left.trans (by simp)

open Classical in
theorem parse_semVerText :
    Semver.parse s.text = if s.NoStrayMinus then .ok (some s.version) else .error .substr := by
  rw [SemVer.text, Semver.parse_append_labels Semver.numbersText_ne_nil Semver.head_numbersText_ne_v
    (Semver.not_mem_numbersText (by decide) (by decide))
    (Semver.not_mem_numbersText (by decide) (by decide)) _ _ (plus_not_mem_prereleaseText s),
    Semver.parseNumbers_numbersText s.major_lt s.minor_lt s.patch_lt, noStrayMinus_iff]
  split_ifs with stray
  · rfl
  · rfl

theorem order_natCast (m n : ℕ) : order (m : ℤ) n = order m n := by
  rcases lt_trichotomy m n with less | rfl | more
  · rw [order_eq_lt.2 less, order_eq_lt.2 (Int.ofNat_lt.2 less)]
  · rw [order_self, order_self]
  · rw [order_eq_gt.2 more, order_eq_gt.2 (Int.ofNat_lt.2 more)]

/-- The pre-releases of two versions, one of which may be a release. -/
theorem order_prereleaseRank_iff :
    order (prereleaseRank (a.prereleaseText.getD [])) (prereleaseRank (b.prereleaseText.getD [])) =
        order a.prereleaseRank b.prereleaseRank ↔
      PrereleasesAgree a.prerelease b.prerelease := by
  have present (s : SemVer) (some : s.prerelease ≠ []) :
      prereleaseRank (s.prereleaseText.getD []) = dotted (s.prerelease.map Identifier.text) := by
    obtain ⟨first, rest, same⟩ := List.exists_cons_of_ne_nil some
    simp [prereleaseRank, SemVer.prereleaseText, same, dotted, first.text_ne_nil]
  have absent (s : SemVer) (none : s.prerelease = []) :
      prereleaseRank (s.prereleaseText.getD []) = ⊤ := by
    simp [prereleaseRank, SemVer.prereleaseText, none]
  rw [SemVer.prereleaseRank, SemVer.prereleaseRank]
  cases listA : a.prerelease with
  | nil =>
    rw [absent a listA]
    cases listB : b.prerelease with
    | nil => simp [absent b listB, PrereleasesAgree]
    | cons i rest =>
      rw [present b (by simp [listB])]
      simp [PrereleasesAgree]
  | cons i rest =>
    rw [present a (by simp [listA])]
    cases listB : b.prerelease with
    | nil =>
      rw [absent b listB]
      simp [PrereleasesAgree]
    | cons j rest' =>
      rw [present b (by simp [listB]), if_neg (by simp), if_neg (by simp), order_coe, order_coe,
        listA, listB]
      exact order_dotted_iff (by simp) (by simp)

/-- What `compare` decides is the precedence unless the pre-releases of the same numbers go
wrong. -/
theorem order_rank_iff :
    order a.version.rank b.version.rank = order a.rank b.rank ↔
      (a.major = b.major → a.minor = b.minor → a.patch = b.patch →
        PrereleasesAgree a.prerelease b.prerelease) := by
  rw [Version.rank, Version.rank, SemVer.rank, SemVer.rank, ← order_prereleaseRank_iff]
  simp only [order_toLex]
  rw [show order a.version.major b.version.major = order a.major b.major from order_natCast _ _,
    show order a.version.minor b.version.minor = order a.minor b.minor from order_natCast _ _,
    show order a.version.patch b.version.patch = order a.patch b.patch from order_natCast _ _]
  by_cases major : a.major = b.major
  · by_cases minor : a.minor = b.minor
    · by_cases patch : a.patch = b.patch
      · simp [major, minor, patch, SemVer.version]
      · simp [major, minor, patch, order_then_of_ne patch]
    · simp [major, minor, order_then_of_ne minor]
  · simp [major, order_then_of_ne major]

/-- `compare` gives the precedence of two well-formed versions exactly when neither text throws
and, under the same numbers, the pre-releases agree. -/
theorem compare_eq_precedence_iff :
    Semver.compare a.text b.text = .ok (SemVer.precedence a b) ↔
      a.NoStrayMinus ∧ b.NoStrayMinus ∧
        (a.major = b.major → a.minor = b.minor → a.patch = b.patch →
          PrereleasesAgree a.prerelease b.prerelease) := by
  rw [← order_rank_iff, SemVer.precedence]
  have parseA := parse_semVerText a
  have parseB := parse_semVerText b
  by_cases readableA : a.NoStrayMinus
  · rw [if_pos readableA] at parseA
    by_cases readableB : b.NoStrayMinus
    · rw [if_pos readableB] at parseB
      rw [Semver.compare_of_parse parseA parseB, Except.ok.injEq, threeWay_injective.eq_iff]
      simp [readableA, readableB]
    · rw [if_neg readableB] at parseB
      rw [Semver.compare_of_right_error parseA parseB]
      simp [readableB]
  · rw [if_neg readableA] at parseA
    rw [Semver.compare_of_parse_error parseA]
    simp [readableA]

theorem one_lt_bound : 1 < 2 ^ 31 := by decide

/-- `1.0.0-alpha.` and a numeric identifier. -/
def alpha (value : ℕ) : SemVer where
  major := 1
  minor := 0
  patch := 0
  prerelease := [.alphanumeric ['a', 'l', 'p', 'h', 'a'] (by simp [isIdentifierChar]) (by simp),
    .numeric value]
  build := []
  major_lt := one_lt_bound
  minor_lt := Nat.two_pow_pos 31
  patch_lt := Nat.two_pow_pos 31

/-- As a text, `10` comes before `2`. -/
theorem compare_alpha :
    (alpha 10).text = "1.0.0-alpha.10".toList ∧ (alpha 2).text = "1.0.0-alpha.2".toList ∧
      Semver.compare (alpha 10).text (alpha 2).text = .ok (-1) ∧
      SemVer.precedence (alpha 10) (alpha 2) = 1 :=
  ⟨by decide, by decide, by decide, by decide⟩

end Versions

end ProtoJS.Npm
