import Mathlib

/-! # Formatted extraction from a text

A text is the list of its characters, and a character stands for the byte with its code. What is
here are the parts of the C++ library that read numbers and characters from an input stream, and
the decimal form of a natural number, which they read back.
-/

namespace ProtoJS.Strings

abbrev Text := List Char

/-- `isspace` in the classic locale. -/
def isSpace (c : Char) : Bool := c = ' ' || (9 ≤ c.toNat && c.toNat ≤ 13)

theorem isSpace_eq_false_of_isDigit {c : Char} (digit : c.isDigit) : isSpace c = false := by
  simp only [Char.isDigit, Bool.and_eq_true, decide_eq_true_eq, ge_iff_le, UInt32.le_iff_toNat_le]
    at digit
  have low : 48 ≤ c.toNat := digit.1
  have noBlank : c ≠ ' ' := by
    rintro rfl
    exact absurd low (by decide)
  simp only [isSpace, noBlank, decide_false, Bool.false_or, Bool.and_eq_false_iff,
    decide_eq_false_iff_not]
  omega

/-- `stream >> c` for a `char`: white space is skipped; `none` when nothing is left. -/
def extractChar (input : Text) : Option (Char × Text) :=
  match input.dropWhile isSpace with
  | [] => none
  | c :: rest => some (c, rest)

/-- `stream >> n` for an `int`: white space is skipped, a sign may come first, and the digits
must make up a number in range. -/
def extractInt (input : Text) : Option (ℤ × Text) :=
  let input := input.dropWhile isSpace
  let negative := input.head? = some '-'
  let unsigned := if negative ∨ input.head? = some '+' then input.tail else input
  let digits := unsigned.takeWhile Char.isDigit
  let magnitude : ℤ := Nat.ofDigitChars 10 digits 0
  let value := if negative then -magnitude else magnitude
  if digits = [] ∨ value < -2 ^ 31 ∨ 2 ^ 31 ≤ value then none
  else some (value, unsigned.dropWhile Char.isDigit)

/-- `stream << n` for an `n` that is not negative. -/
def decimal (n : ℕ) : Text := Nat.toDigits 10 n

/-- `stream << n` for an `int`. -/
def signedDecimal (n : ℤ) : Text := if n < 0 then '-' :: decimal n.natAbs else decimal n.natAbs

section Stops

variable {p : Char → Bool} {front rest : Text}

theorem dropWhile_append_of_stops (all : ∀ c ∈ front, p c)
    (stops : ∀ c, rest.head? = some c → p c = false) : (front ++ rest).dropWhile p = rest := by
  rw [List.dropWhile_append_of_pos all]
  cases rest with
  | nil => rfl
  | cons c rest => simp [stops c rfl]

theorem takeWhile_append_of_stops (all : ∀ c ∈ front, p c)
    (stops : ∀ c, rest.head? = some c → p c = false) : (front ++ rest).takeWhile p = front := by
  rw [List.takeWhile_append_of_pos all]
  cases rest with
  | nil => simp
  | cons c rest => simp [stops c rfl]

/-- Where a text that goes on as long as it can ends is one place. -/
theorem append_inj_of_stops {front' rest' : Text} (all : ∀ c ∈ front, p c)
    (stops : ∀ c, rest.head? = some c → p c = false) (all' : ∀ c ∈ front', p c)
    (stops' : ∀ c, rest'.head? = some c → p c = false)
    (same : front ++ rest = front' ++ rest') : front = front' ∧ rest = rest' := by
  have fronts := congrArg (List.takeWhile p) same
  have rests := congrArg (List.dropWhile p) same
  rw [takeWhile_append_of_stops all stops, takeWhile_append_of_stops all' stops'] at fronts
  rw [dropWhile_append_of_stops all stops, dropWhile_append_of_stops all' stops'] at rests
  exact ⟨fronts, rests⟩

variable {c : Char}

theorem forall_ne_of_not_mem (absent : c ∉ front) : ∀ d ∈ front, decide (d ≠ c) = true := by
  intro d member
  rw [decide_eq_true_eq]
  rintro rfl
  exact absent member

theorem dropWhile_ne_cons (absent : c ∉ front) :
    (front ++ c :: rest).dropWhile (· ≠ c) = c :: rest := by
  rw [List.dropWhile_append_of_pos (forall_ne_of_not_mem absent),
    List.dropWhile_cons_of_neg (by simp)]

theorem takeWhile_ne_cons (absent : c ∉ front) :
    (front ++ c :: rest).takeWhile (· ≠ c) = front := by
  rw [List.takeWhile_append_of_pos (forall_ne_of_not_mem absent),
    List.takeWhile_cons_of_neg (by simp), List.append_nil]

theorem dropWhile_ne_of_not_mem (absent : c ∉ front) : front.dropWhile (· ≠ c) = [] :=
  List.dropWhile_eq_nil_iff.2 (forall_ne_of_not_mem absent)

/-- Where a character is first is one place. -/
theorem append_cons_inj_of_not_mem {front' rest' : Text} (absent : c ∉ front) (absent' : c ∉ front')
    (same : front ++ c :: rest = front' ++ c :: rest') : front = front' ∧ rest = rest' := by
  obtain ⟨rfl, rests⟩ := append_inj_of_stops (forall_ne_of_not_mem absent) (by simp)
    (forall_ne_of_not_mem absent') (by simp) same
  exact ⟨rfl, (List.cons.inj rests).2⟩

end Stops

section Decimal

variable {n m : ℕ}

theorem isDigit_of_mem_decimal {c : Char} (member : c ∈ decimal n) : c.isDigit := by
  apply Nat.isDigit_of_mem_toDigits _ _ member <;> omega

@[simp] theorem decimal_ne_nil : decimal n ≠ [] := Nat.toDigits_ne_nil

theorem decimal_injective : Function.Injective decimal := by
  intro n m same
  have read := congrArg (Nat.ofDigitChars 10 · 0) same
  simpa only [decimal, Nat.ofDigitChars_ten_toDigits] using read

theorem decimal_eq_cons (n : ℕ) : ∃ c rest, decimal n = c :: rest ∧ c.isDigit := by
  cases digits : decimal n with
  | nil => exact absurd digits decimal_ne_nil
  | cons c rest =>
    exact ⟨c, rest, rfl, isDigit_of_mem_decimal (n := n) (by rw [digits]; exact List.mem_cons_self)⟩

/-- A text whose first character is no digit ends the digits before it. -/
def EndsDigits (rest : Text) : Prop := ∀ c, rest.head? = some c → c.isDigit = false

theorem takeWhile_decimal_append {rest : Text} (ends : EndsDigits rest) :
    (decimal n ++ rest).takeWhile Char.isDigit = decimal n :=
  takeWhile_append_of_stops (fun _ member => isDigit_of_mem_decimal member) ends

theorem extractChar_cons {c : Char} {rest : Text} (noSpace : isSpace c = false) :
    extractChar (c :: rest) = some (c, rest) := by
  simp [extractChar, noSpace]

end Decimal

section Unsigned

/-- The digits of an `int`, as they are read, with the white space that is skipped before them. -/
structure SpacedNumeral where
  spaces : Text
  digits : Text
  allSpace : ∀ c ∈ spaces, isSpace c
  nonempty : digits ≠ []
  allDigits : ∀ c ∈ digits, c.isDigit
  bound : Nat.ofDigitChars 10 digits 0 < 2 ^ 31

namespace SpacedNumeral

def text (numeral : SpacedNumeral) : Text := numeral.spaces ++ numeral.digits

def value (numeral : SpacedNumeral) : ℕ := Nat.ofDigitChars 10 numeral.digits 0

/-- A number as it is written. -/
def ofNat (n : ℕ) (bound : n < 2 ^ 31) : SpacedNumeral where
  spaces := []
  digits := decimal n
  allSpace := by simp
  nonempty := decimal_ne_nil
  allDigits := fun _ member => isDigit_of_mem_decimal member
  bound := by rwa [decimal, Nat.ofDigitChars_ten_toDigits]

theorem value_ofNat (n : ℕ) (bound : n < 2 ^ 31) : (ofNat n bound).value = n :=
  Nat.ofDigitChars_ten_toDigits

/-- A numeral contains nothing but white space and digits. -/
theorem not_mem_text (numeral : SpacedNumeral) {c : Char} (noSpace : isSpace c = false)
    (noDigit : c.isDigit = false) : c ∉ numeral.text := by
  intro member
  rcases List.mem_append.1 member with space | digit
  · rw [numeral.allSpace c space] at noSpace
    exact absurd noSpace (by decide)
  · rw [numeral.allDigits c digit] at noDigit
    exact absurd noDigit (by decide)

end SpacedNumeral

variable {text rest : Text}

/-- Where the list of what is dropped ends, the condition does not hold. -/
theorem eq_false_of_head_dropWhile {p : Char → Bool} {c : Char}
    (head : (text.dropWhile p).head? = some c) : p c = false := by
  rw [Bool.eq_false_iff]
  intro holds
  have stopped := List.head?_dropWhile_not p text
  simp [head, holds] at stopped

/-- Without a sign, the digits behind the white space are what is read. -/
theorem extractInt_of_unsigned (noMinus : (text.dropWhile isSpace).head? ≠ some '-')
    (noPlus : (text.dropWhile isSpace).head? ≠ some '+') :
    extractInt text =
      let digits := (text.dropWhile isSpace).takeWhile Char.isDigit
      if digits = [] ∨ 2 ^ 31 ≤ Nat.ofDigitChars 10 digits 0 then none
      else some ((Nat.ofDigitChars 10 digits 0 : ℤ),
        (text.dropWhile isSpace).dropWhile Char.isDigit) := by
  simp only [extractInt, noMinus, noPlus, or_self, if_false]
  congr 1
  rw [eq_iff_iff]
  apply or_congr_right
  omega

theorem extractInt_numeral (numeral : SpacedNumeral) (ends : EndsDigits rest) :
    extractInt (numeral.text ++ rest) = some ((numeral.value : ℤ), rest) := by
  have digit {c : Char} (head : (numeral.digits ++ rest).head? = some c) : c.isDigit := by
    rw [List.head?_append_of_ne_nil _ numeral.nonempty] at head
    exact numeral.allDigits c (List.mem_of_mem_head? head)
  have front : (numeral.text ++ rest).dropWhile isSpace = numeral.digits ++ rest := by
    rw [SpacedNumeral.text, List.append_assoc]
    apply dropWhile_append_of_stops numeral.allSpace
    exact fun c head => isSpace_eq_false_of_isDigit (digit head)
  have unsigned {c : Char} (noDigit : c.isDigit = false) :
      ((numeral.text ++ rest).dropWhile isSpace).head? ≠ some c := by
    rw [front]
    intro head
    rw [digit head] at noDigit
    exact absurd noDigit (by decide)
  rw [extractInt_of_unsigned (unsigned (by decide)) (unsigned (by decide)), front,
    takeWhile_append_of_stops numeral.allDigits ends,
    dropWhile_append_of_stops numeral.allDigits ends]
  dsimp only
  rw [if_neg (not_or.2 ⟨numeral.nonempty, numeral.bound.not_ge⟩)]
  rfl

theorem exists_numeral_of_extractInt {n : ℤ} (noMinus : '-' ∉ text) (noPlus : '+' ∉ text)
    (read : extractInt text = some (n, rest)) :
    ∃ numeral : SpacedNumeral, text = numeral.text ++ rest ∧ n = numeral.value ∧
      EndsDigits rest := by
  have unsigned {c : Char} (absent : c ∉ text) : (text.dropWhile isSpace).head? ≠ some c := by
    intro head
    exact absent ((List.dropWhile_suffix _).subset (List.mem_of_mem_head? head))
  rw [extractInt_of_unsigned (unsigned noMinus) (unsigned noPlus)] at read
  dsimp only at read
  split_ifs at read with unread
  obtain ⟨nonempty, bound⟩ := not_or.1 unread
  obtain ⟨rfl, rfl⟩ := Prod.mk.injEq .. ▸ Option.some.inj read
  refine ⟨⟨text.takeWhile isSpace, _, fun c => List.mem_takeWhile_imp, nonempty,
    fun c => List.mem_takeWhile_imp, not_le.1 bound⟩, ?_, rfl, ?_⟩
  · rw [SpacedNumeral.text, List.append_assoc, List.takeWhile_append_dropWhile,
      List.takeWhile_append_dropWhile]
  · intro c head
    exact eq_false_of_head_dropWhile head

/-- The number that was written is the number that is read. -/
theorem extractInt_decimal_append {n : ℕ} (bound : n < 2 ^ 31) (ends : EndsDigits rest) :
    extractInt (decimal n ++ rest) = some ((n : ℤ), rest) := by
  have read := extractInt_numeral (.ofNat n bound) ends
  rwa [SpacedNumeral.value_ofNat] at read

theorem extractChar_spaces {spaces : Text} {c : Char} (allSpace : ∀ d ∈ spaces, isSpace d)
    (noSpace : isSpace c = false) : extractChar (spaces ++ c :: rest) = some (c, rest) := by
  have skipped : (spaces ++ c :: rest).dropWhile isSpace = c :: rest := by
    apply dropWhile_append_of_stops allSpace
    intro d head
    obtain rfl : c = d := Option.some.inj head
    exact noSpace
  rw [extractChar, skipped]

theorem exists_spaces_of_extractChar {c : Char} (read : extractChar text = some (c, rest)) :
    ∃ spaces, text = spaces ++ c :: rest ∧ ∀ d ∈ spaces, isSpace d := by
  rw [extractChar] at read
  cases skipped : text.dropWhile isSpace with
  | nil => simp [skipped] at read
  | cons d remaining =>
    rw [skipped] at read
    obtain ⟨rfl, rfl⟩ := Prod.mk.injEq .. ▸ Option.some.inj read
    refine ⟨text.takeWhile isSpace, ?_, fun d => List.mem_takeWhile_imp⟩
    rw [← skipped, List.takeWhile_append_dropWhile]

end Unsigned

end ProtoJS.Strings
