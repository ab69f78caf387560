import ProtoJS.Strings.Extraction

/-! # Regular expressions with captures

Matching is by backtracking: the ways an expression matches at the start of a text are listed in
the order in which they are tried, and the first of them counts. A search takes the first place
of the text at which there is one.
-/

namespace ProtoJS.Strings

inductive Regex where
  | empty
  | char (accepts : Char → Bool)
  | seq (first second : Regex)
  | alt (first second : Regex)
  | star (body : Regex)
  | group (index : ℕ) (body : Regex)

/-- The texts that the groups of an expression have captured, the last ones first. -/
abbrev Captures := List (ℕ × Text)

namespace Regex

/-- A literal text. -/
def literal (text : Text) : Regex := text.foldr (fun c rest => seq (char (· == c)) rest) empty

/-- One or more times. -/
def plus (body : Regex) : Regex := seq body (star body)

/-- `\w`. -/
def word : Regex := char fun c => c.isAlphanum || c == '_'

/-- `\s`. -/
def space : Regex := char isSpace

/-- As many repetitions as there can be come first. A repetition of nothing is not tried. -/
def repetitions (body : Text → List (Text × Captures)) : ℕ → Text → List (Text × Captures)
  | 0, input => [(input, [])]
  | fuel + 1, input =>
    ((body input).filter fun way => way.1.length < input.length).flatMap (fun way =>
      (repetitions body fuel way.1).map fun more => (more.1, more.2 ++ way.2)) ++ [(input, [])]

/-- The ways in which an expression matches at the start of a text: what is left of it, and the
captures. -/
def ways : Regex → Text → List (Text × Captures)
  | empty, input => [(input, [])]
  | char accepts, input =>
    match input with
    | [] => []
    | c :: rest => if accepts c then [(rest, [])] else []
  | seq first second, input =>
    (ways first input).flatMap fun way =>
      (ways second way.1).map fun more => (more.1, more.2 ++ way.2)
  | alt first second, input => ways first input ++ ways second input
  | star body, input => repetitions (ways body) input.length input
  | group index body, input =>
    (ways body input).map fun way =>
      (way.1, (index, input.take (input.length - way.1.length)) :: way.2)

/-- The first match in a text: what comes after it, and its captures. -/
def search (r : Regex) : Text → Option (Text × Captures)
  | [] => (ways r []).head?
  | c :: rest =>
    match (ways r (c :: rest)).head? with
    | some way => some way
    | none => search r rest

/-- The matches one after the other, each search beginning where the last match ends. With an
expression that matches no empty text the fuel is enough. -/
def searchFrom (r : Regex) : ℕ → Text → List Captures
  | 0, _ => []
  | fuel + 1, input =>
    match search r input with
    | none => []
    | some (rest, captures) => captures :: searchFrom r fuel rest

/-- All matches in a text. -/
def matches_ (r : Regex) (input : Text) : List Captures := searchFrom r input.length input

/-- `match[index].str()`, empty for a group that took no part. -/
def submatch (index : ℕ) (captures : Captures) : Text := (captures.lookup index).getD []

/-- What an expression matches, and the captures that go with it. -/
inductive Matches : Regex → Text → Captures → Prop
  | empty : Matches empty [] []
  | char {accepts : Char → Bool} {c : Char} : accepts c → Matches (char accepts) [c] []
  | seq {first second : Regex} {s t : Text} {cs ds : Captures} :
    Matches first s cs → Matches second t ds → Matches (seq first second) (s ++ t) (ds ++ cs)
  | left {first second : Regex} {s : Text} {cs : Captures} :
    Matches first s cs → Matches (alt first second) s cs
  | right {first second : Regex} {s : Text} {cs : Captures} :
    Matches second s cs → Matches (alt first second) s cs
  | done {body : Regex} : Matches (star body) [] []
  | more {body : Regex} {s t : Text} {cs ds : Captures} :
    Matches body s cs → Matches (star body) t ds → Matches (star body) (s ++ t) (ds ++ cs)
  | group {index : ℕ} {body : Regex} {s : Text} {cs : Captures} :
    Matches body s cs → Matches (group index body) s ((index, s) :: cs)

section Sound

variable {r : Regex} {input rest : Text} {captures : Captures}

/-- A way takes a start of the text that the expression matches. -/
def Takes (r : Regex) (input : Text) (way : Text × Captures) : Prop :=
  ∃ matched, input = matched ++ way.1 ∧ Matches r matched way.2

theorem takes_of_mem_repetitions {body : Regex}
    (sound : ∀ input, ∀ way ∈ ways body input, Takes body input way) (fuel : ℕ) (input : Text) :
    ∀ way ∈ repetitions (ways body) fuel input, Takes (star body) input way := by
  induction fuel generalizing input with
  | zero =>
    intro way member
    obtain rfl := List.mem_singleton.1 member
    exact ⟨[], rfl, .done⟩
  | succ fuel ih =>
    intro way member
    rw [repetitions, List.mem_append, List.mem_flatMap] at member
    rcases member with ⟨first, isFirst, member⟩ | last
    · obtain ⟨later, isLater, rfl⟩ := List.mem_map.1 member
      obtain ⟨s, splitFirst, matchesFirst⟩ := sound input first (List.mem_filter.1 isFirst).1
      obtain ⟨t, splitLater, matchesLater⟩ := ih first.1 later isLater
      refine ⟨s ++ t, ?_, .more matchesFirst matchesLater⟩
      rw [List.append_assoc, ← splitLater, ← splitFirst]
    · obtain rfl := List.mem_singleton.1 last
      exact ⟨[], rfl, .done⟩

theorem takes_of_mem_ways (r : Regex) (input : Text) : ∀ way ∈ ways r input, Takes r input way := by
  induction r generalizing input with
  | empty =>
    intro way member
    obtain rfl := List.mem_singleton.1 member
    exact ⟨[], rfl, .empty⟩
  | char accepts =>
    intro way member
    cases input with
    | nil => exact absurd member List.not_mem_nil
    | cons c rest =>
      rw [ways] at member
      split_ifs at member with accepted
      · obtain rfl := List.mem_singleton.1 member
        exact ⟨[c], rfl, .char accepted⟩
      · exact absurd member List.not_mem_nil
  | seq first second ihFirst ihSecond =>
    intro way member
    obtain ⟨before, isFirst, member⟩ := List.mem_flatMap.1 member
    obtain ⟨later, isSecond, rfl⟩ := List.mem_map.1 member
    obtain ⟨s, splitFirst, matchesFirst⟩ := ihFirst input before isFirst
    obtain ⟨t, splitSecond, matchesSecond⟩ := ihSecond before.1 later isSecond
    refine ⟨s ++ t, ?_, .seq matchesFirst matchesSecond⟩
    rw [List.append_assoc, ← splitSecond, ← splitFirst]
  | alt first second ihFirst ihSecond =>
    intro way member
    rcases List.mem_append.1 member with isFirst | isSecond
    · obtain ⟨s, split, taken⟩ := ihFirst input way isFirst
      exact ⟨s, split, .left taken⟩
    · obtain ⟨s, split, taken⟩ := ihSecond input way isSecond
      exact ⟨s, split, .right taken⟩
  | star body ih => exact takes_of_mem_repetitions ih _ input
  | group index body ih =>
    intro way member
    obtain ⟨inner, isWay, rfl⟩ := List.mem_map.1 member
    obtain ⟨s, split, taken⟩ := ih input inner isWay
    have captured : input.take (input.length - inner.1.length) = s := by
      rw [split]
      simp
    refine ⟨s, split, ?_⟩
    rw [captured]
    exact .group taken

theorem exists_matches_of_search (found : search r input = some (rest, captures)) :
    ∃ before matched, input = before ++ (matched ++ rest) ∧ Matches r matched captures := by
  induction input with
  | nil =>
    obtain ⟨s, same, taken⟩ := takes_of_mem_ways r [] _ (List.mem_of_mem_head? found)
    exact ⟨[], s, same, taken⟩
  | cons c input ih =>
    rw [search] at found
    split at found
    · rename_i way first
      obtain rfl := Option.some.inj found
      obtain ⟨s, same, taken⟩ := takes_of_mem_ways r (c :: input) _ (List.mem_of_mem_head? first)
      exact ⟨[], s, same, taken⟩
    · obtain ⟨before, matched, rfl, taken⟩ := ih found
      exact ⟨c :: before, matched, rfl, taken⟩

/-- The captures of every match found in a text are those of a part of it that the expression
matches. -/
theorem exists_matches_of_mem (found : captures ∈ matches_ r input) :
    ∃ matched, matched <:+: input ∧ Matches r matched captures := by
  rw [matches_] at found
  generalize input.length = fuel at found
  induction fuel generalizing input with
  | zero => exact absurd found List.not_mem_nil
  | succ fuel ih =>
    rw [searchFrom] at found
    split at found
    · exact absurd found List.not_mem_nil
    · rename_i rest first searched
      obtain ⟨before, matched, rfl, taken⟩ := exists_matches_of_search searched
      rcases List.mem_cons.1 found with rfl | later
      · exact ⟨matched, ⟨before, rest, List.append_assoc ..⟩, taken⟩
      · obtain ⟨other, inside, taken⟩ := ih later
        exact ⟨other, inside.trans ⟨before ++ matched, [], by simp⟩, taken⟩

end Sound

section Groups

/-- The groups of an expression, each with what it encloses. -/
def groups : Regex → List (ℕ × Regex)
  | empty => []
  | char _ => []
  | seq first second => groups first ++ groups second
  | alt first second => groups first ++ groups second
  | star body => groups body
  | group index body => (index, body) :: groups body

/-- Whether a group takes part in every match. -/
def takesPart (index : ℕ) : Regex → Bool
  | empty => false
  | char _ => false
  | seq first second => takesPart index first || takesPart index second
  | alt first second => takesPart index first && takesPart index second
  | star _ => false
  | group i body => i == index || takesPart index body

variable {r : Regex} {s : Text} {captures : Captures} {index : ℕ}

/-- What a match captures is matched by a group of the expression. -/
theorem Matches.exists_group (taken : Matches r s captures) :
    ∀ capture ∈ captures, ∃ body cs, (capture.1, body) ∈ r.groups ∧ Matches body capture.2 cs := by
  induction taken with
  | empty => simp
  | char accepted => simp
  | seq _ _ ihFirst ihSecond =>
    intro capture member
    rcases List.mem_append.1 member with later | before
    · obtain ⟨body, cs, isGroup, taken⟩ := ihSecond capture later
      exact ⟨body, cs, List.mem_append_right _ isGroup, taken⟩
    · obtain ⟨body, cs, isGroup, taken⟩ := ihFirst capture before
      exact ⟨body, cs, List.mem_append_left _ isGroup, taken⟩
  | left _ ih =>
    intro capture member
    obtain ⟨body, cs, isGroup, taken⟩ := ih capture member
    exact ⟨body, cs, List.mem_append_left _ isGroup, taken⟩
  | right _ ih =>
    intro capture member
    obtain ⟨body, cs, isGroup, taken⟩ := ih capture member
    exact ⟨body, cs, List.mem_append_right _ isGroup, taken⟩
  | done => simp
  | more _ _ ihFirst ihRest =>
    intro capture member
    rcases List.mem_append.1 member with later | before
    · exact ihRest capture later
    · exact ihFirst capture before
  | group inner ih =>
    intro capture member
    rcases List.mem_cons.1 member with rfl | before
    · exact ⟨_, _, List.mem_cons_self, inner⟩
    · obtain ⟨body, cs, isGroup, taken⟩ := ih capture before
      exact ⟨body, cs, List.mem_cons_of_mem _ isGroup, taken⟩

theorem Matches.mem_map_fst (taken : Matches r s captures) (part : r.takesPart index = true) :
    index ∈ captures.map Prod.fst := by
  induction taken with
  | empty => exact absurd part (by simp [takesPart])
  | char accepted => exact absurd part (by simp [takesPart])
  | seq _ _ ihFirst ihSecond =>
    rw [List.map_append, List.mem_append]
    rcases Bool.or_eq_true_iff.1 part with first | second
    · exact .inr (ihFirst first)
    · exact .inl (ihSecond second)
  | left _ ih => exact ih (Bool.and_eq_true_iff.1 part).1
  | right _ ih => exact ih (Bool.and_eq_true_iff.1 part).2
  | done => exact absurd part (by simp [takesPart])
  | more _ _ _ _ => exact absurd part (by simp [takesPart])
  | group _ ih =>
    rcases Bool.or_eq_true_iff.1 part with same | inner
    · rw [beq_iff_eq.1 same]
      exact List.mem_cons_self
    · exact List.mem_cons_of_mem _ (ih inner)

/-- The text of a group that takes part in every match is matched by what a group with its index
encloses. -/
theorem exists_group_of_submatch {input : Text} (found : captures ∈ matches_ r input)
    (part : r.takesPart index = true) :
    ∃ body cs, (index, body) ∈ r.groups ∧ Matches body (submatch index captures) cs := by
  obtain ⟨s, -, taken⟩ := exists_matches_of_mem found
  obtain ⟨⟨i, t⟩, member, rfl⟩ := List.mem_map.1 (taken.mem_map_fst part)
  cases looked : captures.lookup i with
  | none => exact absurd (List.lookup_eq_none_iff.1 looked _ member) (by simp)
  | some text =>
    obtain ⟨before, after, same, -⟩ := List.lookup_eq_some_iff.1 looked
    rw [submatch, looked]
    exact taken.exists_group (i, text) (by rw [same]; simp)

theorem accepts_of_matches_star {accepts : Char → Bool}
    (taken : Matches (star (char accepts)) s captures) :
    ∀ c ∈ s, accepts c = true := by
  generalize same : star (char accepts) = r at taken
  induction taken with
  | done => simp
  | more first _ _ ih =>
    obtain rfl := Regex.star.inj same
    cases first with
    | char accepted =>
      intro c member
      rcases List.mem_append.1 member with new | rest
      · rw [List.mem_singleton.1 new]
        exact accepted
      · exact ih same c rest
  | _ => exact absurd same (by simp)

/-- Repeated at least once, a character expression matches texts of accepted characters. -/
theorem accepts_of_matches_plus {accepts : Char → Bool}
    (taken : Matches (plus (char accepts)) s captures) :
    s ≠ [] ∧ ∀ c ∈ s, accepts c = true := by
  cases taken with
  | seq first rest =>
    cases first with
    | char accepted =>
      exact ⟨by simp, List.forall_mem_cons.2 ⟨accepted, accepts_of_matches_star rest⟩⟩

end Groups

end Regex

end ProtoJS.Strings
