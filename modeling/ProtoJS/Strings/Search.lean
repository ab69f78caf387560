import Mathlib

/-! # Searching a text that arrives in pieces

Where a separator is found first in a list does not change when the list goes on, and it is found
in no shorter part of the list. A list may come in pieces; `after n` are the pieces behind its first
`n` elements.
-/

namespace ProtoJS.Strings

section Search

variable {α : Type*} [BEq α] [LawfulBEq α] {text pattern before rest : List α}

/-- The parts of a text before and behind the first occurrence of a pattern. -/
theorem dropInfix?_eq_some : text.dropInfix? pattern = some (before, rest) ↔
    text = before ++ pattern ++ rest ∧
      ∀ before' rest', text = before' ++ pattern ++ rest' → before.length ≤ before'.length := by
  rw [List.dropInfix?_eq_some_iff]
  constructor
  · rintro ⟨⟨p, same, found⟩, first⟩
    rw [eq_of_beq found] at same
    refine ⟨same, fun before' rest' same' => first before' pattern rest' same' (by simp)⟩
  · rintro ⟨same, first⟩
    refine ⟨⟨pattern, same, by simp⟩, ?_⟩
    intro before' p rest' same' found
    rw [eq_of_beq found] at same'
    exact first before' rest' same'

theorem dropInfix?_eq_none : text.dropInfix? pattern = none ↔ ¬pattern <:+: text := by
  constructor
  · rintro absent ⟨before, rest, same⟩
    -- Of the lengths of what stands before an occurrence there is a least one.
    have occurs : ∃ n before rest, text = before ++ pattern ++ rest ∧ before.length = n :=
      ⟨_, before, rest, same.symm, rfl⟩
    classical
    obtain ⟨least, rest', same', length⟩ := Nat.find_spec occurs
    have found : text.dropInfix? pattern = some (least, rest') := by
      rw [dropInfix?_eq_some]
      refine ⟨same', fun before' rest'' other => ?_⟩
      rw [length]
      exact Nat.find_min' occurs ⟨before', rest'', other, rfl⟩
    rw [absent] at found
    cases found
  · intro absent
    cases found : text.dropInfix? pattern with
    | none => rfl
    | some parts =>
      obtain ⟨same, _⟩ := dropInfix?_eq_some.mp found
      exact absurd ⟨parts.1, parts.2, same.symm⟩ absent

/-- Where its first element does not occur before, a pattern is found at once. -/
theorem dropInfix?_append_cons {c : α} (absent : c ∉ before) :
    (before ++ c :: pattern ++ rest).dropInfix? (c :: pattern) = some (before, rest) := by
  rw [dropInfix?_eq_some]
  refine ⟨rfl, ?_⟩
  intro before' rest' other
  by_contra shorter
  -- An earlier occurrence would begin within what stands before.
  have start : before' ++ [c] <+: before ++ c :: pattern ++ rest := by
    rw [other]
    simp
  have front : before <+: before ++ c :: pattern ++ rest := by simp
  have within : before' ++ [c] <+: before := by
    apply List.prefix_of_prefix_length_le start front
    simp only [List.length_append, List.length_singleton]
    omega
  exact absent (within.subset (by simp))

/-- The first occurrence stays the first one. -/
theorem dropInfix?_append (found : text.dropInfix? pattern = some (before, rest)) (more : List α) :
    (text ++ more).dropInfix? pattern = some (before, rest ++ more) := by
  obtain ⟨same, first⟩ := dropInfix?_eq_some.mp found
  rw [dropInfix?_eq_some]
  refine ⟨by rw [same, List.append_assoc], ?_⟩
  intro before' rest' other
  by_contra shorter
  -- An earlier occurrence would end within the text.
  have ends : (before' ++ pattern).length ≤ text.length := by
    simp only [same, List.length_append]
    omega
  have within : before' ++ pattern <+: text := by
    refine List.prefix_of_prefix_length_le ?_ (List.prefix_append text more) ends
    rw [other]
    exact List.prefix_append ..
  obtain ⟨tail, same'⟩ := within
  exact shorter (first before' tail same'.symm)

/-- Before its first occurrence is complete, there is none. -/
theorem dropInfix?_of_prefix {start : List α}
    (found : (before ++ pattern).dropInfix? pattern = some (before, []))
    (within : start <+: before ++ pattern) (shorter : start.length < (before ++ pattern).length) :
    start.dropInfix? pattern = none := by
  rw [dropInfix?_eq_none]
  rintro ⟨before', rest', rfl⟩
  obtain ⟨tail, same⟩ := within
  obtain ⟨_, first⟩ := dropInfix?_eq_some.mp found
  have least := first before' (rest' ++ tail) (by rw [← same, List.append_assoc])
  simp only [List.length_append] at shorter
  omega

end Search

section Pieces

variable {α : Type*} {n : ℕ} {pieces : List (List α)}

/-- The pieces behind the first `n` elements; the first of them is the rest of its piece. -/
def after : ℕ → List (List α) → List (List α)
  | _, [] => []
  | n, piece :: pieces =>
    if piece.length < n then after (n - piece.length) pieces else piece.drop n :: pieces

theorem after_eq_nil (few : pieces.flatten.length < n) : after n pieces = [] := by
  induction pieces generalizing n with
  | nil => rfl
  | cons piece pieces ih =>
    rw [List.flatten_cons, List.length_append] at few
    rw [after, if_pos (by omega)]
    exact ih (by omega)

/-- The piece in which the first `n` elements come to their end. -/
theorem exists_after (positive : 0 < n) (enough : n ≤ pieces.flatten.length) :
    ∃ before piece rest later, pieces = before ++ (piece ++ rest) :: later ∧
      (before.flatten ++ piece).length = n ∧ piece ≠ [] ∧ after n pieces = rest :: later := by
  induction pieces generalizing n with
  | nil =>
    rw [List.flatten_nil, List.length_nil] at enough
    omega
  | cons piece pieces ih =>
    rw [List.flatten_cons, List.length_append] at enough
    rw [after]
    split
    · rename_i short
      obtain ⟨before, last, rest, later, same, length, present, behind⟩ :=
        ih (n := n - piece.length) (by omega) (by omega)
      refine ⟨piece :: before, last, rest, later, by rw [same, List.cons_append], ?_, present,
        behind⟩
      rw [List.flatten_cons, List.append_assoc, List.length_append, length]
      omega
    · rename_i long
      refine ⟨[], piece.take n, piece.drop n, pieces, by simp, ?_, ?_, rfl⟩
      · rw [List.flatten_nil, List.nil_append, List.length_take]
        omega
      · rw [← List.length_pos_iff, List.length_take]
        omega

end Pieces

end ProtoJS.Strings
