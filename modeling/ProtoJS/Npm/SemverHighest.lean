import ProtoJS.Npm.SemverRanges
import ProtoJS.Machine.Selection

/-! # The highest version of a list

`findHighest` is a selection over the versions that a range admits. It starts with the first of
them that is not empty, whether or not that one parses, and from there on only versions that
parse can come to the front.
-/

namespace ProtoJS.Npm

open Strings Selection

/-- The rank of a text that parses. -/
def textRank (text : Text) : Option VersionRank :=
  match Semver.parse text with
  | .ok (some version) => some version.rank
  | _ => none

section Rank

variable {v w : Text}

theorem textRank_of_parse {a : Version} (parsed : Semver.parse v = .ok (some a)) :
    textRank v = some a.rank := by
  rw [textRank, parsed]

theorem parses_iff_textRank : Parses v ↔ ∃ r, textRank v = some r := by
  constructor
  · rintro ⟨a, parsed⟩
    exact ⟨a.rank, textRank_of_parse parsed⟩
  · rintro ⟨r, ranked⟩
    rw [textRank] at ranked
    split at ranked
    · exact ⟨_, by assumption⟩
    · exact absurd ranked (by simp)

theorem textRank_eq_none (unreadable : ¬ Parses v) : textRank v = none := by
  cases ranked : textRank v with
  | none => rfl
  | some r => exact absurd (parses_iff_textRank.2 ⟨r, ranked⟩) unreadable

theorem not_parses_nil : ¬ Parses [] := fun parses => parses.ne_none (by decide)

theorem Parses.ne_nil (parses : Parses v) : v ≠ [] := by
  rintro rfl
  exact not_parses_nil parses

theorem atLeast_iff_textRank {r s : VersionRank} (rankV : textRank v = some r)
    (rankW : textRank w = some s) : Semver.AtLeast v w ↔ s ≤ r := by
  obtain ⟨a, parsedV⟩ := parses_iff_textRank.2 ⟨r, rankV⟩
  obtain ⟨b, parsedW⟩ := parses_iff_textRank.2 ⟨s, rankW⟩
  rw [textRank_of_parse parsedV] at rankV
  rw [textRank_of_parse parsedW] at rankW
  obtain rfl := Option.some.inj rankV
  obtain rfl := Option.some.inj rankW
  exact Semver.atLeast_iff parsedV parsedW

end Rank

namespace Semver

variable {range : Text} {versions : List Text}

/-- The versions that a range admits, without empty texts. -/
def admitted (range : Text) (versions : List Text) : List Text :=
  versions.filter fun v => decide (v ≠ []) && decide (satisfies v range = .ok true)

theorem mem_admitted {v : Text} :
    v ∈ admitted range versions ↔ v ∈ versions ∧ v ≠ [] ∧ satisfies v range = .ok true := by
  simp [admitted]

section Step

variable {v highest : Text}

theorem step_of_error {e : OutOfRange} (thrown : satisfies v range = .error e) :
    findHighestStep range highest v = .error e := by
  rw [findHighestStep, thrown]
  rfl

theorem step_of_false (out : satisfies v range = .ok false) :
    findHighestStep range highest v = .ok highest := by
  rw [findHighestStep, out]
  rfl

theorem step_first (admits : satisfies v range = .ok true) :
    findHighestStep range [] v = .ok v := by
  rw [findHighestStep, admits]
  rfl

theorem step_compare (present : highest ≠ []) (admits : satisfies v range = .ok true) :
    findHighestStep range highest v =
      (Semver.compare v highest).map fun c => if c > 0 then v else highest := by
  rw [findHighestStep, admits]
  simp only [bind, Except.bind, if_true, present, if_false]
  cases Semver.compare v highest with
  | error e => rfl
  | ok c =>
    simp only [Except.map, gt_iff_lt]
    split_ifs <;> rfl

/-- Where nothing throws, a further version is kept when it is higher. -/
theorem step_eq_keepHigher (present : highest ≠ []) (admits : satisfies v range = .ok true)
    (noThrow : ¬ Throws v) (quiet : Throws highest → ¬ Parses v) :
    findHighestStep range highest v = .ok (keepHigher textRank highest v) := by
  rw [step_compare present admits]
  rcases parses_or v with parses | unparsed | throws
  · obtain ⟨a, parsedV⟩ := id parses
    rcases parses_or highest with ⟨b, parsedH⟩ | unparsedH | throwsH
    · rw [compare_of_parse parsedV parsedH, keepHigher, textRank_of_parse parsedV,
        textRank_of_parse parsedH]
      simp only [Except.map, gt_iff_lt, threeWay_order_pos]
    · have unranked := textRank_eq_none fun readable => readable.ne_none unparsedH
      rw [compare_of_right_none parsedV unparsedH, keepHigher, unranked, textRank_of_parse parsedV]
      rfl
    · exact absurd parses (quiet throwsH)
  · have unranked := textRank_eq_none fun readable => readable.ne_none unparsed
    rw [compare_of_parse_none unparsed, keepHigher, unranked]
    rfl
  · exact absurd throws noThrow

theorem step_of_throws (present : highest ≠ []) (admits : satisfies v range = .ok true)
    (throws : Throws v ∨ Throws highest ∧ Parses v) :
    findHighestStep range highest v = .error .substr := by
  rw [step_compare present admits]
  rcases throws with throwsV | ⟨throwsH, a, parsedV⟩
  · rw [compare_of_parse_error throwsV]
    rfl
  · rw [compare_of_right_error parsedV throwsH]
    rfl

end Step

section Loop

variable {highest result : Text}

/-- What the loop needs from a kept version on in order not to throw. -/
def Quiet (range highest : Text) (versions : List Text) : Prop :=
  (∀ v ∈ versions, ∃ holds, satisfies v range = .ok holds) ∧
    ∀ w ∈ admitted range versions, ¬ Throws w ∧ (Throws highest → ¬ Parses w)

variable {v : Text}

theorem admitted_cons_of_not (out : ¬ (v ≠ [] ∧ satisfies v range = .ok true)) :
    admitted range (v :: versions) = admitted range versions := by
  rw [admitted, List.filter_cons_of_neg]
  · rfl
  · simpa using out

theorem admitted_cons (present : v ≠ []) (admits : satisfies v range = .ok true) :
    admitted range (v :: versions) = v :: admitted range versions := by
  rw [admitted, List.filter_cons_of_pos]
  · rfl
  · simp [present, admits]

theorem quiet_cons_of_not {holds : Bool} (answers : satisfies v range = .ok holds)
    (out : ¬ (v ≠ [] ∧ satisfies v range = .ok true)) :
    Quiet range highest (v :: versions) ↔ Quiet range highest versions := by
  simp [Quiet, admitted_cons_of_not out, answers]

theorem quiet_cons (present : v ≠ []) (admits : satisfies v range = .ok true) :
    Quiet range highest (v :: versions) ↔
      (¬ Throws v ∧ (Throws highest → ¬ Parses v)) ∧ Quiet range highest versions := by
  simp only [Quiet, admitted_cons present admits, List.forall_mem_cons, admits, Except.ok.injEq,
    exists_eq', true_and]
  tauto

/-- The version that is kept next throws where the one before it would have mattered. -/
theorem quiet_keepHigher (quiet : Throws highest → ¬ Parses v) :
    Quiet range (keepHigher textRank highest v) versions ↔ Quiet range highest versions := by
  rcases keepHigher_cases textRank highest v with same | ⟨same, ranked⟩
  · rw [same]
  · have parses := parses_iff_textRank.2 ranked
    have noThrow : ¬ Throws highest := fun throws => quiet throws parses
    rw [same]
    simp [Quiet, parses.not_throws, noThrow]

theorem keepHigher_ne_nil (present : highest ≠ []) : keepHigher textRank highest v ≠ [] := by
  rcases keepHigher_cases textRank highest v with same | ⟨same, ranked⟩
  · rwa [same]
  · rw [same]
    exact (parses_iff_textRank.2 ranked).ne_nil

/-- The loop from a kept version on. -/
theorem foldlM_step_iff (present : highest ≠ []) :
    versions.foldlM (findHighestStep range) highest = .ok result ↔
      Quiet range highest versions ∧
        (admitted range versions).foldl (keepHigher textRank) highest = result := by
  induction versions generalizing highest with
  | nil => simp [Quiet, admitted, pure, Except.pure]
  | cons v versions ih =>
    rw [List.foldlM_cons]
    cases answers : satisfies v range with
    | error e =>
      rw [step_of_error answers]
      simp [Quiet, answers, bind, Except.bind]
    | ok holds =>
      cases holds with
      | false =>
        have out : ¬ (v ≠ [] ∧ satisfies v range = .ok true) := by simp [answers]
        rw [step_of_false answers, quiet_cons_of_not answers out, admitted_cons_of_not out]
        exact ih present
      | true =>
        by_cases empty : v = []
        · subst empty
          have out : ¬ (([] : Text) ≠ [] ∧ satisfies [] range = .ok true) := by simp
          have noThrow : ¬ Throws [] := not_throws_of_none (by decide)
          rw [step_eq_keepHigher present answers noThrow fun _ => not_parses_nil,
            keepHigher_of_none (textRank_eq_none not_parses_nil), quiet_cons_of_not answers out,
            admitted_cons_of_not out]
          exact ih present
        · rw [quiet_cons empty answers, admitted_cons empty answers]
          by_cases quiet : ¬ Throws v ∧ (Throws highest → ¬ Parses v)
          · rw [step_eq_keepHigher present answers quiet.1 quiet.2, ← quiet_keepHigher quiet.2,
              and_iff_right quiet]
            exact ih (keepHigher_ne_nil present)
          · have throws : Throws v ∨ Throws highest ∧ Parses v := by tauto
            rw [step_of_throws present answers throws]
            simp [quiet, bind, Except.bind]

/-- The whole loop: it is a selection over the admitted versions. -/
theorem findHighest_iff :
    findHighest versions range = .ok result ↔
      (∀ v ∈ versions, ∃ holds, satisfies v range = .ok holds) ∧
        match admitted range versions with
        | [] => result = []
        | x :: rest => (∀ w ∈ rest, ¬ Throws w ∧ (Throws x → ¬ Parses w)) ∧
            rest.foldl (keepHigher textRank) x = result := by
  rw [findHighest]
  induction versions with
  | nil => simp [admitted, pure, Except.pure, eq_comm]
  | cons v versions ih =>
    rw [List.foldlM_cons]
    cases answers : satisfies v range with
    | error e =>
      rw [step_of_error answers]
      simp [answers, bind, Except.bind]
    | ok holds =>
      rw [List.forall_mem_cons, and_iff_right (⟨holds, answers⟩ : ∃ holds, _ = Except.ok holds)]
      by_cases first : v ≠ [] ∧ satisfies v range = .ok true
      · rw [step_first first.2, admitted_cons first.1 first.2]
        exact (foldlM_step_iff first.1).trans and_assoc
      · have skipped : findHighestStep range [] v = .ok [] := by
          cases holds with
          | false => exact step_of_false answers
          | true =>
            have empty : v = [] := by
              by_contra present
              exact first ⟨present, answers⟩
            rw [step_first answers, empty]
        rw [skipped, admitted_cons_of_not first]
        exact ih

end Loop

section Highest

variable {result : Text}

/-- What the highest version of a list is, for the versions that parse. -/
structure IsHighest (range : Text) (versions : List Text) (result : Text) : Prop where
  empty_iff : result = [] ↔ ∀ v ∈ versions, v ≠ [] → satisfies v range ≠ .ok true
  highest : (∃ v ∈ versions, Parses v ∧ satisfies v range = .ok true) →
    result ∈ versions ∧ Parses result ∧ satisfies result range = .ok true ∧
      ∀ v ∈ versions, Parses v → satisfies v range = .ok true → AtLeast result v

/-- Nothing throws, and the first admitted version parses if any of them does. -/
def FirstReadable (range : Text) (versions : List Text) : Prop :=
  (∀ v ∈ versions, ∃ holds, satisfies v range = .ok holds) ∧
    match admitted range versions with
    | [] => True
    | x :: rest => (∀ w ∈ rest, ¬ Throws w) ∧ (Parses x ∨ ∀ w ∈ rest, ¬ Parses w)

theorem mem_admitted_of_parses {v : Text} (member : v ∈ versions) (parses : Parses v)
    (admits : satisfies v range = .ok true) : v ∈ admitted range versions :=
  mem_admitted.2 ⟨member, parses.ne_nil, admits⟩

theorem isHighest_of_admitted_nil (none : admitted range versions = []) :
    IsHighest range versions [] where
  empty_iff := by
    simp only [true_iff]
    intro v member present admits
    have inside := mem_admitted.2 ⟨member, present, admits⟩
    rw [none] at inside
    exact absurd inside List.not_mem_nil
  highest := by
    rintro ⟨v, member, parses, admits⟩
    have inside := mem_admitted_of_parses member parses admits
    rw [none] at inside
    exact absurd inside List.not_mem_nil

/-- An admitted version is not empty, so that the first half holds of it. -/
theorem empty_iff_of_mem (member : result ∈ admitted range versions) :
    result = [] ↔ ∀ v ∈ versions, v ≠ [] → satisfies v range ≠ .ok true := by
  obtain ⟨inside, present, admits⟩ := mem_admitted.1 member
  constructor
  · intro empty
    exact absurd empty present
  · intro none
    exact absurd admits (none result inside present)

theorem isHighest_of_firstHighest
    (first : IsFirstHighest textRank (admitted range versions) result) :
    IsHighest range versions result where
  empty_iff := empty_iff_of_mem first.mem
  highest := by
    rintro -
    obtain ⟨inside, present, admits⟩ := mem_admitted.1 first.mem
    obtain ⟨r, ranked⟩ := first.exists_rank
    refine ⟨inside, parses_iff_textRank.2 ⟨r, ranked⟩, admits, ?_⟩
    intro v member parses admitsV
    obtain ⟨s, rankedV⟩ := parses_iff_textRank.1 parses
    apply (atLeast_iff_textRank ranked rankedV).2
    exact first.le ranked (mem_admitted_of_parses member parses admitsV) rankedV

theorem isHighest_of_unreadable (member : result ∈ admitted range versions)
    (unreadable : ∀ w ∈ admitted range versions, ¬ Parses w) : IsHighest range versions result where
  empty_iff := empty_iff_of_mem member
  highest := by
    rintro ⟨v, inside, parses, admits⟩
    exact absurd parses (unreadable v (mem_admitted_of_parses inside parses admits))

theorem exists_isHighest (readable : FirstReadable range versions) :
    ∃ result, findHighest versions range = .ok result ∧ IsHighest range versions result := by
  obtain ⟨answers, readable⟩ := readable
  simp only [findHighest_iff, and_iff_right answers]
  cases list : admitted range versions with
  | nil => exact ⟨[], rfl, isHighest_of_admitted_nil list⟩
  | cons x rest =>
    rw [list] at readable
    obtain ⟨noThrow, first⟩ := readable
    by_cases parses : Parses x
    · refine ⟨_, ⟨?_, rfl⟩, ?_⟩
      · intro w member
        exact ⟨noThrow w member, fun throws => absurd throws parses.not_throws⟩
      · obtain ⟨r, ranked⟩ := parses_iff_textRank.1 parses
        apply isHighest_of_firstHighest
        rw [list]
        exact isFirstHighest_foldl ranked
    · have unreadable := first.resolve_left parses
      refine ⟨x, ⟨?_, foldl_keepHigher_of_none (textRank_eq_none parses)⟩, ?_⟩
      · intro w member
        exact ⟨noThrow w member, fun _ => unreadable w member⟩
      · apply isHighest_of_unreadable
        · simp [list]
        · rw [list]
          exact List.forall_mem_cons.2 ⟨parses, unreadable⟩

theorem firstReadable_of_isHighest (found : findHighest versions range = .ok result)
    (highest : IsHighest range versions result) : FirstReadable range versions := by
  obtain ⟨answers, loop⟩ := findHighest_iff.1 found
  refine ⟨answers, ?_⟩
  cases list : admitted range versions with
  | nil => trivial
  | cons x rest =>
    rw [list] at loop
    obtain ⟨quiet, selected⟩ := loop
    refine ⟨fun w member => (quiet w member).1, ?_⟩
    apply or_iff_not_imp_left.2
    intro unreadable w member parses
    rw [foldl_keepHigher_of_none (textRank_eq_none unreadable)] at selected
    subst selected
    obtain ⟨inside, -, admits⟩ := mem_admitted.1 (list ▸ List.mem_cons_of_mem x member)
    exact unreadable (highest.highest ⟨w, inside, parses, admits⟩).2.1

/-- Two highest versions of permuted lists compare as equal. -/
theorem compare_highest_of_perm {versions' : List Text} {result' : Text}
    (perm : versions'.Perm versions) (highest : IsHighest range versions result)
    (highest' : IsHighest range versions' result')
    (some : ∃ v ∈ versions, Parses v ∧ satisfies v range = .ok true) :
    Semver.compare result result' = .ok 0 := by
  obtain ⟨inside, parses, admits, above⟩ := highest.highest some
  obtain ⟨inside', parses', admits', above'⟩ := highest'.highest (by
    obtain ⟨v, member, admitted⟩ := some
    exact ⟨v, perm.mem_iff.2 member, admitted⟩)
  have le := above result' (perm.mem_iff.1 inside') parses' admits'
  have ge := above' result (perm.mem_iff.2 inside) parses admits
  obtain ⟨a, parsed⟩ := parses
  obtain ⟨b, parsed'⟩ := parses'
  have same := le_antisymm ((atLeast_iff parsed' parsed).1 ge) ((atLeast_iff parsed parsed').1 le)
  rw [compare_of_parse parsed parsed', same, order_self]
  rfl

/-- `findHighest` finds a highest version exactly when nothing throws and the first admitted
version parses if any does; under this condition the order of the list does not matter. -/
theorem findHighest_isHighest_iff (range : Text) (versions : List Text) :
    ((∃ result, findHighest versions range = .ok result ∧ IsHighest range versions result) ↔
      FirstReadable range versions) ∧
    ∀ versions' : List Text, versions'.Perm versions → FirstReadable range versions →
      FirstReadable range versions' →
      (∃ v ∈ versions, Parses v ∧ satisfies v range = .ok true) →
      ∃ result result', findHighest versions range = .ok result ∧
        findHighest versions' range = .ok result' ∧ Semver.compare result result' = .ok 0 := by
  constructor
  · constructor
    · rintro ⟨result, found, highest⟩
      exact firstReadable_of_isHighest found highest
    · exact exists_isHighest
  · intro versions' perm readable readable' some
    obtain ⟨result, found, highest⟩ := exists_isHighest readable
    obtain ⟨result', found', highest'⟩ := exists_isHighest readable'
    exact ⟨result, result', found, found', compare_highest_of_perm perm highest highest' some⟩

/-- Text that is no version stays in front of every version that comes after it. -/
theorem findHighest_garbage_first :
    findHighest ["garbage".toList, "1.0.0".toList] "*".toList = .ok "garbage".toList ∧
      ¬ IsHighest "*".toList ["garbage".toList, "1.0.0".toList] "garbage".toList := by
  refine ⟨by decide, ?_⟩
  intro highest
  have parses : Parses "1.0.0".toList := ⟨⟨1, 0, 0, [], []⟩, by decide⟩
  have readable := highest.highest ⟨"1.0.0".toList, by simp, parses, by decide⟩
  exact readable.2.1.ne_none (by decide)

end Highest

end Semver

end ProtoJS.Npm
