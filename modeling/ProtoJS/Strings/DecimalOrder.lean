import ProtoJS.Strings.Extraction
import ProtoJS.Strings.Lexicographic

/-! # The order of decimal forms

A shorter decimal form is that of a smaller number, since there are no leading zeros. Forms of one
length are ordered as texts the way their numbers are.
-/

namespace ProtoJS.Strings

variable {n m : ℕ}

theorem lt_of_length_decimal_lt (shorter : (decimal n).length < (decimal m).length) : n < m := by
  have positive : 0 < (decimal n).length := List.length_pos_iff.2 decimal_ne_nil
  have below : n < 10 ^ (decimal n).length :=
    (Nat.length_toDigits_le_iff (by decide) positive).1 le_rfl
  have above : ¬ m < 10 ^ (decimal n).length := by
    rw [← Nat.length_toDigits_le_iff (by decide) positive]
    exact shorter.not_ge
  omega

/-- The value of digits is below the power of ten of their number. -/
theorem ofDigitChars_lt (l : Text) (digits : ∀ c ∈ l, c.isDigit) (init : ℕ) :
    init * 10 ^ l.length ≤ Nat.ofDigitChars 10 l init ∧
      Nat.ofDigitChars 10 l init < (init + 1) * 10 ^ l.length := by
  induction l generalizing init with
  | nil => simp
  | cons c l ih =>
    have digit : c.toNat - '0'.toNat < 10 := by
      have isDigit := digits c List.mem_cons_self
      simp only [Char.isDigit, Bool.and_eq_true, decide_eq_true_eq, UInt32.le_iff_toNat_le]
        at isDigit
      have high : c.toNat ≤ 57 := isDigit.2
      have zero : '0'.toNat = 48 := rfl
      omega
    have rest := ih (fun d member => digits d (List.mem_cons_of_mem c member))
      (10 * init + (c.toNat - '0'.toNat))
    rw [Nat.ofDigitChars_cons, List.length_cons, pow_succ]
    constructor
    · calc init * (10 ^ l.length * 10) ≤ (10 * init + (c.toNat - '0'.toNat)) * 10 ^ l.length := by
            nlinarith [Nat.zero_le ((c.toNat - '0'.toNat) * 10 ^ l.length)]
        _ ≤ _ := rest.1
    · calc _ < (10 * init + (c.toNat - '0'.toNat) + 1) * 10 ^ l.length := rest.2
        _ ≤ (init + 1) * (10 ^ l.length * 10) := by
            have bound : 10 * init + (c.toNat - '0'.toNat) + 1 ≤ (init + 1) * 10 := by omega
            calc _ ≤ (init + 1) * 10 * 10 ^ l.length := Nat.mul_le_mul_right _ bound
              _ = _ := by ring

theorem digit_lt_iff {c d : Char} (first : c.isDigit) (second : d.isDigit) :
    c.toNat - '0'.toNat < d.toNat - '0'.toNat ↔ c < d := by
  simp only [Char.isDigit, Bool.and_eq_true, decide_eq_true_eq, ge_iff_le, UInt32.le_iff_toNat_le]
    at first second
  have lowFirst : 48 ≤ c.toNat := first.1
  have lowSecond : 48 ≤ d.toNat := second.1
  have zero : '0'.toNat = 48 := rfl
  rw [Char.lt_def, UInt32.lt_iff_toNat_lt]
  change _ ↔ c.toNat < d.toNat
  omega

/-- The first digits that differ decide between numbers of one length. -/
theorem ofDigitChars_lt_of_digit_lt {common l r : Text} {c d : Char}
    (sameLength : l.length = r.length)
    (digits : ∀ e ∈ common ++ c :: l, e.isDigit) (digits' : ∀ e ∈ common ++ d :: r, e.isDigit)
    (less : c < d) :
    Nat.ofDigitChars 10 (common ++ c :: l) 0 < Nat.ofDigitChars 10 (common ++ d :: r) 0 := by
  have lessDigit := (digit_lt_iff (digits c (by simp)) (digits' d (by simp))).2 less
  rw [Nat.ofDigitChars_append, Nat.ofDigitChars_append, Nat.ofDigitChars_cons, Nat.ofDigitChars_cons]
  calc _ < (10 * Nat.ofDigitChars 10 common 0 + (c.toNat - '0'.toNat) + 1) * 10 ^ l.length :=
        (ofDigitChars_lt l (fun e member => digits e (by simp [member])) _).2
    _ ≤ (10 * Nat.ofDigitChars 10 common 0 + (d.toNat - '0'.toNat)) * 10 ^ r.length := by
        rw [sameLength]
        exact Nat.mul_le_mul_right _ (by omega)
    _ ≤ _ := (ofDigitChars_lt r (fun e member => digits' e (by simp [member])) _).1

theorem order_ofDigitChars {l r : Text} (digitsL : ∀ c ∈ l, c.isDigit) (digitsR : ∀ c ∈ r, c.isDigit)
    (sameLength : l.length = r.length) :
    order l r = order (Nat.ofDigitChars 10 l 0) (Nat.ofDigitChars 10 r 0) := by
  have diverges := diverges_divergence l r
  generalize divergence l r = place at diverges
  cases diverges with
  | none => rw [order_self, order_self]
  | leftEnds _ d rest => simp at sameLength
  | rightEnds _ c rest => simp at sameLength
  | differ common c d l r ne =>
    have tails : l.length = r.length := by simpa using sameLength
    rw [order_append_left, order_cons_cons, order_then_of_ne ne]
    rcases lt_or_gt_of_ne ne with less | more
    · rw [order_eq_lt.2 less, order_eq_lt.2 (ofDigitChars_lt_of_digit_lt tails digitsL digitsR less)]
    · rw [order_eq_gt.2 more,
        order_eq_gt.2 (ofDigitChars_lt_of_digit_lt tails.symm digitsR digitsL more)]

theorem order_decimal (sameLength : (decimal n).length = (decimal m).length) :
    order (decimal n) (decimal m) = order n m := by
  have read (k : ℕ) : Nat.ofDigitChars 10 (decimal k) 0 = k := Nat.ofDigitChars_ten_toDigits
  have compared := order_ofDigitChars (fun c member => isDigit_of_mem_decimal member)
    (fun c member => isDigit_of_mem_decimal member) sameLength
  rwa [read n, read m] at compared

end ProtoJS.Strings
