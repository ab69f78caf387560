import Mathlib

/-! # Reading a text line by line and word by word

Successive calls of `getline` return what stands between the delimiters, and what stands behind the
last one unless it is nothing. Extraction with `>>` skips white space and takes what comes up to
the next.
-/

namespace ProtoJS.Strings

variable {α : Type*}

section Lines

variable [DecidableEq α]

/-- What successive calls of `getline` return. -/
def lines (delimiter : α) (text : List α) : List (List α) :=
  if (text.splitOn delimiter).getLast? = some [] then (text.splitOn delimiter).dropLast
  else text.splitOn delimiter

variable {delimiter : α} {line rest : List α}

@[simp] theorem lines_nil : lines delimiter [] = [] := by simp [lines]

theorem lines_append (clean : delimiter ∉ line) :
    lines delimiter (line ++ delimiter :: rest) = line :: lines delimiter rest := by
  have present := List.splitOn_ne_nil delimiter rest
  have last : (line :: rest.splitOn delimiter).getLast? = (rest.splitOn delimiter).getLast? :=
    List.getLast?_cons_of_ne_nil present
  have front : (line :: rest.splitOn delimiter).dropLast =
      line :: (rest.splitOn delimiter).dropLast := List.dropLast_cons_of_ne_nil present
  rw [lines, List.splitOn_append_cons_self_of_not_mem clean, last, front, lines]
  split
  · rfl
  · rfl

theorem notMem_of_mem_splitOn {text : List α} :
    ∀ piece ∈ text.splitOn delimiter, delimiter ∉ piece := by
  induction text with
  | nil => simp
  | cons c text ih =>
    rw [List.splitOn_cons_eq_if_modifyHead]
    obtain ⟨first, others, split⟩ :=
      List.exists_cons_of_ne_nil (List.splitOn_ne_nil delimiter text)
    rw [split, List.forall_mem_cons] at ih
    cases same : c == delimiter with
    | true => simpa [split] using ih
    | false =>
      have differ : delimiter ≠ c := by
        rintro rfl
        exact absurd same (by simp)
      simpa [split, differ] using ih

theorem notMem_of_mem_lines {text : List α} (member : line ∈ lines delimiter text) :
    delimiter ∉ line := by
  rw [lines] at member
  split at member
  · exact notMem_of_mem_splitOn line (List.mem_of_mem_dropLast member)
  · exact notMem_of_mem_splitOn line member

/-- Parts that are joined with a separator and split at it again come apart further. -/
theorem splitOn_intercalate {parts : List (List α)} (present : parts ≠ []) :
    ([delimiter].intercalate parts).splitOn delimiter = parts.flatMap (·.splitOn delimiter) := by
  induction parts with
  | nil => exact absurd rfl present
  | cons part parts ih =>
    rcases eq_or_ne parts [] with rfl | more
    · simp
    · rw [List.intercalate_cons_of_ne_nil more, List.append_assoc, List.singleton_append,
        List.splitOn_append_cons_self, ih more, List.flatMap_cons]

end Lines

/-- Where a separator stands in a text twice, the text can be cut in two ways. -/
theorem append_cons_eq_append_cons_iff {delimiter : α}
    {before before' after after' : List α} :
    before ++ delimiter :: after = before' ++ delimiter :: after' ↔
      (before = before' ∧ after = after') ∨
      (∃ more, before = before' ++ delimiter :: more ∧ after' = more ++ delimiter :: after) ∨
      ∃ more, before' = before ++ delimiter :: more ∧ after = more ++ delimiter :: after' := by
  rw [List.append_eq_append_iff]
  constructor
  · rintro (⟨middle, rfl, same⟩ | ⟨middle, rfl, same⟩)
    · rcases List.cons_eq_append_iff.1 same with ⟨rfl, rest⟩ | ⟨more, rfl, rest⟩
      · cases rest
        exact .inl ⟨by simp, rfl⟩
      · exact .inr (.inr ⟨more, rfl, rest⟩)
    · rcases List.cons_eq_append_iff.1 same with ⟨rfl, rest⟩ | ⟨more, rfl, rest⟩
      · cases rest
        exact .inl ⟨by simp, rfl⟩
      · exact .inr (.inl ⟨more, rfl, rest⟩)
  · rintro (⟨rfl, rfl⟩ | ⟨more, rfl, rfl⟩ | ⟨more, rfl, rfl⟩)
    · exact .inl ⟨[], by simp, rfl⟩
    · exact .inr ⟨delimiter :: more, rfl, rfl⟩
    · exact .inl ⟨delimiter :: more, rfl, rfl⟩

section Words

variable (isSpace : α → Bool)

/-- What `>>` extracts from a stream, and what is left of it. -/
def extract (stream : List α) : List α × List α :=
  ((stream.dropWhile isSpace).takeWhile fun c => !isSpace c,
    (stream.dropWhile isSpace).dropWhile fun c => !isSpace c)

variable {isSpace} {word rest : List α} {c next : α}

theorem extract_cons_of_space (space : isSpace c = true) :
    extract isSpace (c :: rest) = extract isSpace rest := by
  simp [extract, space]

/-- A word is extracted up to the space behind it. -/
theorem extract_word (solid : ∀ c ∈ word, isSpace c = false) (present : word ≠ [])
    (ends : isSpace next = true) :
    extract isSpace (word ++ next :: rest) = (word, next :: rest) := by
  obtain ⟨first, others, rfl⟩ := List.exists_cons_of_ne_nil present
  have stays : (first :: others ++ next :: rest).dropWhile isSpace =
      first :: others ++ next :: rest :=
    List.dropWhile_cons_of_neg (by simp [solid first List.mem_cons_self])
  have inside : ∀ c ∈ first :: others, (!isSpace c) = true := by
    intro c member
    rw [solid c member]
    rfl
  rw [extract, stays, List.takeWhile_append_of_pos inside, List.dropWhile_append_of_pos inside]
  simp [ends]

end Words

end ProtoJS.Strings
