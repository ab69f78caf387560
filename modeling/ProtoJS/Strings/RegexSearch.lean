import ProtoJS.Strings.Regex

/-! # What a search for an expression finds

A match is read off the shape of its expression, and every match at the start of a text is among
the ways that are tried there. A search passes over a text in which no match begins, and stops in
it otherwise.
-/

namespace ProtoJS.Strings

namespace Regex

section Shapes

variable {first second body : Regex} {s t : Text} {captures : Captures} {p : Char → Bool}

theorem matches_empty_iff : Matches empty s captures ↔ s = [] ∧ captures = [] := by
  constructor
  · intro taken
    cases taken
    exact ⟨rfl, rfl⟩
  · rintro ⟨rfl, rfl⟩
    exact .empty

theorem matches_char_iff :
    Matches (char p) s captures ↔ (∃ c, p c = true ∧ s = [c]) ∧ captures = [] := by
  constructor
  · intro taken
    cases taken with
    | char accepted => exact ⟨⟨_, accepted, rfl⟩, rfl⟩
  · rintro ⟨⟨c, accepted, rfl⟩, rfl⟩
    exact .char accepted

theorem matches_seq_iff : Matches (seq first second) s captures ↔
    ∃ s₁ s₂ cs₁ cs₂, s = s₁ ++ s₂ ∧ captures = cs₂ ++ cs₁ ∧
      Matches first s₁ cs₁ ∧ Matches second s₂ cs₂ := by
  constructor
  · intro taken
    cases taken with
    | seq before after => exact ⟨_, _, _, _, rfl, rfl, before, after⟩
  · rintro ⟨s₁, s₂, cs₁, cs₂, rfl, rfl, before, after⟩
    exact .seq before after

theorem matches_alt_iff : Matches (alt first second) s captures ↔
    Matches first s captures ∨ Matches second s captures := by
  constructor
  · intro taken
    cases taken with
    | left taken => exact .inl taken
    | right taken => exact .inr taken
  · rintro (taken | taken)
    · exact .left taken
    · exact .right taken

theorem matches_group_iff {index : ℕ} : Matches (group index body) s captures ↔
    ∃ cs, captures = (index, s) :: cs ∧ Matches body s cs := by
  constructor
  · intro taken
    cases taken with
    | group inner => exact ⟨_, rfl, inner⟩
  · rintro ⟨cs, rfl, inner⟩
    exact .group inner

theorem matches_literal_iff : Matches (literal t) s captures ↔ s = t ∧ captures = [] := by
  induction t generalizing s captures with
  | nil => exact matches_empty_iff
  | cons c t ih =>
    have unfolded : literal (c :: t) = seq (char (· == c)) (literal t) := rfl
    rw [unfolded, matches_seq_iff]
    constructor
    · rintro ⟨s₁, s₂, cs₁, cs₂, rfl, rfl, isFirst, isRest⟩
      obtain ⟨⟨d, same, rfl⟩, rfl⟩ := matches_char_iff.1 isFirst
      obtain ⟨rfl, rfl⟩ := ih.1 isRest
      obtain rfl := beq_iff_eq.1 same
      exact ⟨rfl, rfl⟩
    · rintro ⟨rfl, rfl⟩
      exact ⟨[c], t, [], [], rfl, rfl, .char (by simp), ih.2 ⟨rfl, rfl⟩⟩

theorem matches_star_char_iff :
    Matches (star (char p)) s captures ↔ (∀ c ∈ s, p c = true) ∧ captures = [] := by
  constructor
  · intro taken
    refine ⟨accepts_of_matches_star taken, ?_⟩
    generalize same : star (char p) = r at taken
    induction taken with
    | done => rfl
    | more isFirst _ _ ih =>
      obtain rfl := Regex.star.inj same
      rw [ih same, (matches_char_iff.1 isFirst).2]
      rfl
    | _ => exact absurd same (by simp)
  · rintro ⟨accepted, rfl⟩
    induction s with
    | nil => exact .done
    | cons c s ih =>
      obtain ⟨head, rest⟩ := List.forall_mem_cons.1 accepted
      exact .more (.char head) (ih rest)

theorem matches_plus_char_iff : Matches (plus (char p)) s captures ↔
    s ≠ [] ∧ (∀ c ∈ s, p c = true) ∧ captures = [] := by
  constructor
  · intro taken
    obtain ⟨filled, accepted⟩ := accepts_of_matches_plus taken
    obtain ⟨s₁, s₂, cs₁, cs₂, -, rfl, isFirst, isRest⟩ := matches_seq_iff.1 taken
    exact ⟨filled, accepted,
      by rw [(matches_star_char_iff.1 isRest).2, (matches_char_iff.1 isFirst).2]; rfl⟩
  · rintro ⟨filled, accepted, rfl⟩
    obtain ⟨c, s, rfl⟩ := List.exists_cons_of_ne_nil filled
    obtain ⟨head, rest⟩ := List.forall_mem_cons.1 accepted
    exact .seq (.char head) (matches_star_char_iff.2 ⟨rest, rfl⟩)

/-- The expression matches the whole text. -/
def Accepts (r : Regex) (s : Text) : Prop := ∃ captures, Matches r s captures

@[simp] theorem accepts_empty : Accepts empty s ↔ s = [] := by
  simp [Accepts, matches_empty_iff]

@[simp] theorem accepts_char : Accepts (char p) s ↔ ∃ c, p c = true ∧ s = [c] := by
  simp [Accepts, matches_char_iff]

@[simp] theorem accepts_alt : Accepts (alt first second) s ↔ Accepts first s ∨ Accepts second s := by
  simp [Accepts, matches_alt_iff, exists_or]

@[simp] theorem accepts_group {index : ℕ} : Accepts (group index body) s ↔ Accepts body s := by
  simp [Accepts, matches_group_iff]

@[simp] theorem accepts_literal : Accepts (literal t) s ↔ s = t := by
  simp [Accepts, matches_literal_iff]

@[simp] theorem accepts_star_char : Accepts (star (char p)) s ↔ ∀ c ∈ s, p c = true := by
  simp [Accepts, matches_star_char_iff]

@[simp] theorem accepts_plus_char :
    Accepts (plus (char p)) s ↔ s ≠ [] ∧ ∀ c ∈ s, p c = true := by
  simp [Accepts, matches_plus_char_iff]

theorem accepts_seq : Accepts (seq first second) s ↔
    ∃ s₁ s₂, s = s₁ ++ s₂ ∧ Accepts first s₁ ∧ Accepts second s₂ := by
  constructor
  · rintro ⟨captures, taken⟩
    obtain ⟨s₁, s₂, cs₁, cs₂, same, -, before, after⟩ := matches_seq_iff.1 taken
    exact ⟨s₁, s₂, same, ⟨cs₁, before⟩, ⟨cs₂, after⟩⟩
  · rintro ⟨s₁, s₂, rfl, ⟨cs₁, before⟩, ⟨cs₂, after⟩⟩
    exact ⟨cs₂ ++ cs₁, .seq before after⟩

end Shapes

section Complete

/-- Whether an expression can match the empty text. -/
def nullable : Regex → Bool
  | empty => true
  | char _ => false
  | seq first second => nullable first && nullable second
  | alt first second => nullable first || nullable second
  | star _ => true
  | group _ body => nullable body

/-- No repetition in the expression is one of the empty text. -/
def productive : Regex → Bool
  | empty => true
  | char _ => true
  | seq first second => productive first && productive second
  | alt first second => productive first && productive second
  | star body => !nullable body && productive body
  | group _ body => productive body

variable {r : Regex} {s : Text} {captures : Captures}

theorem nullable_of_matches_nil (taken : Matches r s captures) (empty : s = []) :
    nullable r = true := by
  induction taken with
  | empty => rfl
  | char _ => cases empty
  | seq _ _ ihFirst ihSecond =>
    obtain ⟨isFirst, isSecond⟩ := List.append_eq_nil_iff.1 empty
    rw [nullable, ihFirst isFirst, ihSecond isSecond, Bool.and_self]
  | left _ ih => rw [nullable, ih empty, Bool.true_or]
  | right _ ih => rw [nullable, ih empty, Bool.or_true]
  | done => rfl
  | more _ _ _ _ => rfl
  | group _ ih => exact ih empty

/-- The length of the text is fuel enough. -/
theorem repetitions_congr {body : Text → List (Text × Captures)} {fuel more : ℕ} {input : Text}
    (enough : input.length ≤ fuel) (enough' : input.length ≤ more) :
    repetitions body fuel input = repetitions body more input := by
  have nothing (k : ℕ) : repetitions body k [] = [([], [])] := by
    cases k <;> simp [repetitions]
  induction fuel generalizing more input with
  | zero =>
    obtain rfl := List.length_eq_zero_iff.1 (Nat.le_zero.1 enough)
    rw [nothing, nothing]
  | succ fuel ih =>
    cases more with
    | zero =>
      obtain rfl := List.length_eq_zero_iff.1 (Nat.le_zero.1 enough')
      rw [nothing, nothing]
    | succ more =>
      rw [repetitions, repetitions]
      congr 1
      refine List.flatMap_congr fun way member => ?_
      have shorter : way.1.length < input.length := by simpa using (List.mem_filter.1 member).2
      have fits : way.1.length ≤ fuel := by omega
      have fits' : way.1.length ≤ more := by omega
      rw [ih fits fits']

/-- Every match at the start of a text is one of the ways, whatever follows it. -/
theorem mem_ways_of_matches (taken : Matches r s captures) (finite : productive r = true)
    (rest : Text) : (rest, captures) ∈ ways r (s ++ rest) := by
  induction taken generalizing rest with
  | empty => exact List.mem_singleton_self _
  | char accepted => simp [ways, accepted]
  | seq _ _ ihFirst ihSecond =>
    obtain ⟨isFirst, isSecond⟩ := Bool.and_eq_true_iff.1 finite
    rw [List.append_assoc, ways, List.mem_flatMap]
    exact ⟨_, ihFirst isFirst _, List.mem_map.2 ⟨_, ihSecond isSecond rest, rfl⟩⟩
  | left _ ih => exact List.mem_append_left _ (ih (Bool.and_eq_true_iff.1 finite).1 rest)
  | right _ ih => exact List.mem_append_right _ (ih (Bool.and_eq_true_iff.1 finite).2 rest)
  | @done body =>
    rw [List.nil_append, ways]
    cases rest.length <;> simp [repetitions]
  | @more body s t cs ds isFirst isRest ihFirst ihRest =>
    obtain ⟨solid, inner⟩ := Bool.and_eq_true_iff.1 finite
    have filled : s ≠ [] := by
      intro empty
      rw [nullable_of_matches_nil isFirst empty] at solid
      cases solid
    have later := ihRest finite rest
    have size : 0 < s.length := List.length_pos_iff.2 filled
    rw [ways] at later ⊢
    obtain ⟨fuel, sized⟩ : ∃ fuel, (s ++ t ++ rest).length = fuel + 1 :=
      ⟨(s ++ t ++ rest).length - 1, by simp only [List.length_append]; omega⟩
    rw [sized, repetitions, List.mem_append, List.mem_flatMap]
    simp only [List.length_append] at sized
    refine .inl ⟨(t ++ rest, cs), List.mem_filter.2 ⟨?_, ?_⟩, List.mem_map.2 ⟨(rest, ds), ?_, rfl⟩⟩
    · rw [List.append_assoc]
      exact ihFirst inner (t ++ rest)
    · simp only [List.length_append, decide_eq_true_eq]
      omega
    · rwa [repetitions_congr (by simp only [List.length_append]; omega) le_rfl]
  | group _ ih =>
    rw [ways, List.mem_map]
    exact ⟨_, ih finite rest, by simp⟩

/-- The matches at the start of a text are the ways. -/
theorem mem_ways_iff (finite : productive r = true) {input rest : Text} :
    (rest, captures) ∈ ways r input ↔ ∃ matched, input = matched ++ rest ∧
      Matches r matched captures := by
  constructor
  · exact takes_of_mem_ways r input (rest, captures)
  · rintro ⟨matched, rfl, taken⟩
    exact mem_ways_of_matches taken finite rest

end Complete

section Search

variable {r : Regex}

theorem search_of_head? {input : Text} {way : Text × Captures}
    (here : (ways r input).head? = some way) : search r input = some way := by
  cases input with
  | nil => exact here
  | cons c input => rw [search, here]

/-- The only way in which the expression matches at the start is found. -/
theorem search_of_unique {input : Text} {way : Text × Captures} (here : way ∈ ways r input)
    (only : ∀ other ∈ ways r input, other = way) : search r input = some way := by
  apply search_of_head?
  cases tried : ways r input with
  | nil =>
    rw [tried] at here
    cases here
  | cons first others =>
    rw [tried] at only
    rw [List.head?_cons, only first List.mem_cons_self]

theorem searchFrom_congr {input input' : Text} (same : search r input = search r input')
    (fuel : ℕ) : searchFrom r fuel input = searchFrom r fuel input' := by
  cases fuel with
  | zero => rfl
  | succ fuel => rw [searchFrom, same, searchFrom]

/-- A search passes over a text in which no match begins. -/
theorem search_append_of_none {front rest : Text}
    (none : ∀ after, after ≠ [] → after <:+ front → ways r (after ++ rest) = []) :
    search r (front ++ rest) = search r rest := by
  induction front with
  | nil => rfl
  | cons c front ih =>
    have here : ways r (c :: (front ++ rest)) = [] := none (c :: front) (by simp) List.suffix_rfl
    rw [List.cons_append, search, here, List.head?_nil]
    exact ih fun after filled inside => none after filled (inside.trans (List.suffix_cons c front))

theorem searchFrom_append_of_none {front rest : Text} (fuel : ℕ)
    (none : ∀ after, after ≠ [] → after <:+ front → ways r (after ++ rest) = []) :
    searchFrom r fuel (front ++ rest) = searchFrom r fuel rest :=
  searchFrom_congr (search_append_of_none none) fuel

/-- A search stops at the first place in a text at which a match begins, if there is one. -/
theorem search_append_cases (front rest : Text) :
    (∃ after way, after ≠ [] ∧ after <:+ front ∧ (ways r (after ++ rest)).head? = some way ∧
      search r (front ++ rest) = some way) ∨ search r (front ++ rest) = search r rest := by
  induction front with
  | nil => exact .inr rfl
  | cons c front ih =>
    rw [List.cons_append, search]
    cases here : (ways r (c :: (front ++ rest))).head? with
    | some way => exact .inl ⟨c :: front, way, by simp, List.suffix_rfl, here, rfl⟩
    | none =>
      refine ih.imp_left ?_
      rintro ⟨after, way, filled, inside, starts, found⟩
      exact ⟨after, way, filled, inside.trans (List.suffix_cons c front), starts, found⟩

end Search

end Regex

end ProtoJS.Strings
