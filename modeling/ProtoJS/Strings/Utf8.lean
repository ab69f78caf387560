import ProtoJS.Strings.CString

/-! # Well-formed UTF-8

The byte sequences that are UTF-8 of shortest form are those of a table, which gives every place
of a sequence its range of bytes. It has no row for a value that fewer bytes can hold, for a
surrogate, or for a value above U+10FFFF.
-/

namespace ProtoJS.Strings

/-- The rows of the table, in the order of the characters that they encode. -/
def utf8Rows : List (List (UInt8 × UInt8)) := [
  [(0x00, 0x7F)],
  [(0xC2, 0xDF), (0x80, 0xBF)],
  [(0xE0, 0xE0), (0xA0, 0xBF), (0x80, 0xBF)],
  [(0xE1, 0xEC), (0x80, 0xBF), (0x80, 0xBF)],
  [(0xED, 0xED), (0x80, 0x9F), (0x80, 0xBF)],
  [(0xEE, 0xEF), (0x80, 0xBF), (0x80, 0xBF)],
  [(0xF0, 0xF0), (0x90, 0xBF), (0x80, 0xBF), (0x80, 0xBF)],
  [(0xF1, 0xF3), (0x80, 0xBF), (0x80, 0xBF), (0x80, 0xBF)],
  [(0xF4, 0xF4), (0x80, 0x8F), (0x80, 0xBF), (0x80, 0xBF)]]

def InRange (range : UInt8 × UInt8) (byte : UInt8) : Prop := range.1 ≤ byte ∧ byte ≤ range.2

/-- The bytes of one character. -/
def IsUtf8Sequence (bytes : List UInt8) : Prop := ∃ row ∈ utf8Rows, List.Forall₂ InRange row bytes

/-- A string of sequences, one behind the other. -/
inductive WellFormedUtf8 : List UInt8 → Prop
  | nil : WellFormedUtf8 []
  | append {sequence bytes : List UInt8} (first : IsUtf8Sequence sequence)
      (rest : WellFormedUtf8 bytes) : WellFormedUtf8 (sequence ++ bytes)

private theorem inRange_ofNat {low high value : ℕ} (least : low ≤ value) (greatest : value ≤ high)
    (byte : high < 256) : InRange (UInt8.ofNat low, UInt8.ofNat high) (UInt8.ofNat value) := by
  simp only [InRange, UInt8.le_iff_toNat_le, UInt8.toNat_ofNat']
  omega

section Rows

variable {first second third fourth : ℕ}

private theorem isUtf8Sequence_two (low : 0xC2 ≤ first) (high : first ≤ 0xDF)
    (lowSecond : 0x80 ≤ second) (highSecond : second ≤ 0xBF) :
    IsUtf8Sequence [UInt8.ofNat first, UInt8.ofNat second] := by
  refine ⟨[(0xC2, 0xDF), (0x80, 0xBF)], by decide, ?_⟩
  exact .cons (inRange_ofNat low high (by decide))
    (.cons (inRange_ofNat lowSecond highSecond (by decide)) .nil)

/-- Of the lead bytes of three, two narrow the byte behind them. -/
private theorem isUtf8Sequence_three (low : 0xE0 ≤ first) (high : first ≤ 0xEF)
    (lowSecond : 0x80 ≤ second) (highSecond : second ≤ 0xBF)
    (shortest : first = 0xE0 → 0xA0 ≤ second) (scalar : first = 0xED → second ≤ 0x9F)
    (lowThird : 0x80 ≤ third) (highThird : third ≤ 0xBF) :
    IsUtf8Sequence [UInt8.ofNat first, UInt8.ofNat second, UInt8.ofNat third] := by
  have tail : InRange (0x80, 0xBF) (UInt8.ofNat third) :=
    inRange_ofNat lowThird highThird (by decide)
  have middle : InRange (0x80, 0xBF) (UInt8.ofNat second) :=
    inRange_ofNat lowSecond highSecond (by decide)
  obtain rfl | ⟨above, below⟩ | rfl | above :
      first = 0xE0 ∨ 0xE1 ≤ first ∧ first ≤ 0xEC ∨ first = 0xED ∨ 0xEE ≤ first := by omega
  · refine ⟨[(0xE0, 0xE0), (0xA0, 0xBF), (0x80, 0xBF)], by decide, ?_⟩
    apply List.Forall₂.cons (inRange_ofNat le_rfl le_rfl (by decide))
    exact .cons (inRange_ofNat (shortest rfl) highSecond (by decide)) (.cons tail .nil)
  · refine ⟨[(0xE1, 0xEC), (0x80, 0xBF), (0x80, 0xBF)], by decide, ?_⟩
    exact .cons (inRange_ofNat above below (by decide)) (.cons middle (.cons tail .nil))
  · refine ⟨[(0xED, 0xED), (0x80, 0x9F), (0x80, 0xBF)], by decide, ?_⟩
    apply List.Forall₂.cons (inRange_ofNat le_rfl le_rfl (by decide))
    exact .cons (inRange_ofNat lowSecond (scalar rfl) (by decide)) (.cons tail .nil)
  · refine ⟨[(0xEE, 0xEF), (0x80, 0xBF), (0x80, 0xBF)], by decide, ?_⟩
    exact .cons (inRange_ofNat above high (by decide)) (.cons middle (.cons tail .nil))

/-- Of the lead bytes of four, the first and the last narrow the byte behind them. -/
private theorem isUtf8Sequence_four (low : 0xF0 ≤ first) (high : first ≤ 0xF4)
    (lowSecond : 0x80 ≤ second) (highSecond : second ≤ 0xBF)
    (shortest : first = 0xF0 → 0x90 ≤ second) (scalar : first = 0xF4 → second ≤ 0x8F)
    (lowThird : 0x80 ≤ third) (highThird : third ≤ 0xBF)
    (lowFourth : 0x80 ≤ fourth) (highFourth : fourth ≤ 0xBF) :
    IsUtf8Sequence
      [UInt8.ofNat first, UInt8.ofNat second, UInt8.ofNat third, UInt8.ofNat fourth] := by
  have tail : List.Forall₂ InRange [(0x80, 0xBF), (0x80, 0xBF)]
      [UInt8.ofNat third, UInt8.ofNat fourth] :=
    .cons (inRange_ofNat lowThird highThird (by decide))
      (.cons (inRange_ofNat lowFourth highFourth (by decide)) .nil)
  obtain rfl | ⟨above, below⟩ | rfl :
      first = 0xF0 ∨ 0xF1 ≤ first ∧ first ≤ 0xF3 ∨ first = 0xF4 := by omega
  · refine ⟨[(0xF0, 0xF0), (0x90, 0xBF), (0x80, 0xBF), (0x80, 0xBF)], by decide, ?_⟩
    apply List.Forall₂.cons (inRange_ofNat le_rfl le_rfl (by decide))
    exact .cons (inRange_ofNat (shortest rfl) highSecond (by decide)) tail
  · refine ⟨[(0xF1, 0xF3), (0x80, 0xBF), (0x80, 0xBF), (0x80, 0xBF)], by decide, ?_⟩
    apply List.Forall₂.cons (inRange_ofNat above below (by decide))
    exact .cons (inRange_ofNat lowSecond highSecond (by decide)) tail
  · refine ⟨[(0xF4, 0xF4), (0x80, 0x8F), (0x80, 0xBF), (0x80, 0xBF)], by decide, ?_⟩
    apply List.Forall₂.cons (inRange_ofNat le_rfl le_rfl (by decide))
    exact .cons (inRange_ofNat lowSecond (scalar rfl) (by decide)) tail

end Rows

/-- UTF-8 spends on every character a sequence of the table. -/
theorem isUtf8Sequence_utf8EncodeChar (c : Char) : IsUtf8Sequence (String.utf8EncodeChar c) := by
  have scalar : c.val.toNat < 0xD800 ∨ 0xDFFF < c.val.toNat ∧ c.val.toNat < 0x110000 := c.valid
  unfold String.utf8EncodeChar
  dsimp only
  split_ifs with one two three
  · refine ⟨[(0x00, 0x7F)], by decide, ?_⟩
    exact .cons (inRange_ofNat (Nat.zero_le _) one (by decide)) .nil
  · apply isUtf8Sequence_two <;> omega
  · apply isUtf8Sequence_three <;> omega
  · apply isUtf8Sequence_four <;> omega

theorem wellFormedUtf8_flatMap (chars : List Char) :
    WellFormedUtf8 (chars.flatMap String.utf8EncodeChar) := by
  induction chars with
  | nil => exact .nil
  | cons c chars rest =>
    rw [List.flatMap_cons]
    exact .append (isUtf8Sequence_utf8EncodeChar c) rest

theorem utf8Decode?_flatMap (chars : List Char) :
    (chars.flatMap String.utf8EncodeChar).toByteArray.utf8Decode? = some chars.toArray :=
  List.utf8Decode?_utf8Encode

end ProtoJS.Strings
