import Mathlib

/-! # Escaped fields

In a line of fields, a mark in front of a character takes away its meaning. A reader that heeds the
marks while it looks for the delimiter has unescaped the field it returns.
-/

namespace ProtoJS.Strings

variable {α : Type*} (mark : α)

/-- A mark in front of each special character. -/
def escape (special : α → Bool) (field : List α) : List α :=
  field.flatMap fun c => if special c then [mark, c] else [c]

variable [DecidableEq α]

/-- A mark gives way to the character behind it; a mark at the end stays. -/
def unescape : List α → List α
  | [] => []
  | [c] => [c]
  | c :: d :: rest => if c = mark then d :: unescape rest else c :: unescape (d :: rest)

/-- The field up to the first delimiter without a mark, unescaped, and what follows. -/
def readField (delimiter : α) : List α → List α × List α
  | [] => ([], [])
  | [c] => if c = delimiter then ([], []) else ([c], [])
  | c :: d :: rest =>
    if c = mark then
      let (field, rest) := readField delimiter rest
      (d :: field, rest)
    else if c = delimiter then ([], d :: rest)
    else
      let (field, rest) := readField delimiter (d :: rest)
      (c :: field, rest)

variable {mark} {special : α → Bool} {delimiter c : α} {field rest text : List α}

theorem length_unescape_le (text : List α) : (unescape mark text).length ≤ text.length := by
  fun_induction unescape mark text with
  | case1 => exact le_rfl
  | case2 => exact le_rfl
  | case3 d rest ih => simp only [List.length_cons]; omega
  | case4 c d rest other ih => simpa using ih

/-- What holds no mark but at its end, and only that, is unescaped already. -/
theorem unescape_eq_self_iff : unescape mark text = text ↔ mark ∉ text.dropLast := by
  fun_induction unescape mark text with
  | case1 => simp
  | case2 => simp
  | case3 d rest ih =>
    refine iff_of_false ?_ (by simp)
    intro same
    have short : (unescape mark rest).length ≤ rest.length := length_unescape_le rest
    have long := congrArg List.length same
    simp only [List.length_cons] at long
    omega
  | case4 c d rest other ih =>
    rw [List.cons.injEq, and_iff_right rfl, ih, List.dropLast_cons_cons, List.mem_cons, not_or,
      and_iff_right (Ne.symm other)]

theorem mem_of_mem_unescape (member : c ∈ unescape mark text) : c ∈ text := by
  fun_induction unescape mark text with
  | case1 => exact member
  | case2 => exact member
  | case3 d rest ih =>
    rcases List.mem_cons.mp member with rfl | later
    · simp
    · simp [ih later]
  | case4 e d rest other ih =>
    rcases List.mem_cons.mp member with rfl | later
    · simp
    · simp [ih later]

theorem mem_of_mem_readField (member : c ∈ (readField mark delimiter text).1) : c ∈ text := by
  fun_induction readField mark delimiter text with
  | case1 | case2 | case5 => exact absurd member List.not_mem_nil
  | case3 => exact member
  | case4 d rest field behind read ih | case6 e d rest _ _ field behind read ih =>
    rcases List.mem_cons.mp member with rfl | later
    · simp
    · rw [read] at ih
      simp [ih later]

theorem readField_mark (d : α) (rest : List α) :
    readField mark delimiter (mark :: d :: rest) =
      (d :: (readField mark delimiter rest).1, (readField mark delimiter rest).2) := by
  rw [readField, if_pos rfl]

theorem readField_cons (noMark : c ≠ mark) (noEnd : c ≠ delimiter) :
    readField mark delimiter (c :: rest) =
      (c :: (readField mark delimiter rest).1, (readField mark delimiter rest).2) := by
  cases rest with
  | nil => simp [readField, noEnd]
  | cons d rest => rw [readField, if_neg noMark, if_neg noEnd]

theorem readField_delimiter (differ : delimiter ≠ mark) :
    readField mark delimiter (delimiter :: rest) = ([], rest) := by
  cases rest with
  | nil => rw [readField, if_pos rfl]
  | cons d rest => rw [readField, if_neg differ, if_pos rfl]

/-- An escaped field is read back up to the delimiter behind it. -/
theorem readField_escape (marked : special mark = true) (ended : special delimiter = true)
    (differ : delimiter ≠ mark) :
    readField mark delimiter (escape mark special field ++ delimiter :: rest) = (field, rest) := by
  induction field with
  | nil => exact readField_delimiter differ
  | cons c field ih =>
    rw [escape, List.flatMap_cons, ← escape, List.append_assoc]
    cases here : special c with
    | true => rw [if_pos rfl, List.cons_append, List.singleton_append, readField_mark, ih]
    | false =>
      have noMark : c ≠ mark := by
        rintro rfl
        exact absurd (here.symm.trans marked) Bool.false_ne_true
      have noEnd : c ≠ delimiter := by
        rintro rfl
        exact absurd (here.symm.trans ended) Bool.false_ne_true
      rw [if_neg Bool.false_ne_true, List.singleton_append, readField_cons noMark noEnd, ih]

omit [DecidableEq α] in
theorem mem_of_mem_escape (member : c ∈ escape mark special field) : c = mark ∨ c ∈ field := by
  obtain ⟨d, inside, shown⟩ := List.mem_flatMap.mp member
  split at shown
  · rcases List.mem_pair.mp shown with rfl | rfl
    · exact .inl rfl
    · exact .inr inside
  · rw [List.mem_singleton.mp shown]
    exact .inr inside

omit [DecidableEq α] in
theorem escape_eq_self (plain : ∀ c ∈ field, special c = false) :
    escape mark special field = field := by
  induction field with
  | nil => rfl
  | cons c field ih =>
    rw [List.forall_mem_cons] at plain
    rw [escape, List.flatMap_cons, ← escape, ih plain.2, plain.1]
    rfl

end ProtoJS.Strings
