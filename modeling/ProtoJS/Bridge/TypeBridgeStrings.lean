import ProtoJS.Bridge.TypeBridge
import ProtoJS.Strings.Utf8

/-! # Texts across the type bridge

A text becomes a list of code points through a C string, and comes back through an encoder of the
bridge's own and another C string. The encoder writes UTF-8 for every character, and U+0000 ends
the text on both ways.
-/

namespace ProtoJS.Bridge

open Strings

/-- What texts become at the calls of the bridge: `JS_ToCString` gives UTF-8 that a zero byte ends,
`fromUTF8String` decodes what stands in front of it, and `JS_NewString` reads as far. -/
structure ReadsTexts (core : ProtoCore) (engine : Engine String) (decoder : Decoder) : Prop where
  toCString : ∀ text, engine.toCString text = Strings.toCString text
  newString : ∀ bytes, engine.newString bytes = decoder.newString bytes
  characters : ∀ text : String, '\x00' ∉ text.toList →
    core.characters (core.fromUTF8String (utf8 text)) = text.toList.map Char.val

/-- The engine and the protoCore there are. -/
theorem ReadsTexts.lossy : ReadsTexts .terms .lossy .lossy where
  toCString _ := rfl
  newString _ := rfl
  characters text _ := by
    have decoded := congrArg String.toList (Decoder.lossy.decode_utf8 text)
    simp only [Decoder.lossy, String.toList_ofList] at decoded
    exact congrArg (List.map Char.val) decoded

section Encoder

variable {v : UInt32}

theorem continuationByte_eq {shift : UInt32} (small : shift.toNat < 32) :
    continuationByte v shift = UInt8.ofNat (v.toNat / 2 ^ shift.toNat % 0x40 + 0x80) := by
  have bound : v.toNat / 2 ^ shift.toNat % 2 ^ 6 < 2 ^ 7 := by omega
  have marked := Nat.two_pow_add_eq_or_of_lt bound 1
  have mask : (0x3F : UInt32).toNat = 2 ^ 6 - 1 := rfl
  have mark : (0x80 : UInt32).toNat = 2 ^ 7 * 1 := rfl
  apply UInt8.toNat_inj.1
  rw [continuationByte, UInt32.toNat_toUInt8, UInt32.toNat_or, UInt32.toNat_and,
    UInt32.toNat_shiftRight, Nat.mod_eq_of_lt small, Nat.shiftRight_eq_div_pow, mask, mark,
    Nat.and_two_pow_sub_one_eq_mod, ← marked, UInt8.toNat_ofNat', Nat.add_comm]
  rfl

/-- The mark and the bits of a lead byte do not meet. -/
theorem leadByte_eq {mark shift : UInt32} {bits high : ℕ} (small : shift.toNat < 32)
    (marks : mark.toNat = 2 ^ bits * high) (fits : v.toNat / 2 ^ shift.toNat < 2 ^ bits) :
    leadByte mark v shift = UInt8.ofNat (v.toNat / 2 ^ shift.toNat + mark.toNat) := by
  apply UInt8.toNat_inj.1
  simp only [leadByte, UInt32.toNat_toUInt8, UInt32.toNat_or, UInt32.toNat_shiftRight,
    Nat.mod_eq_of_lt small, Nat.shiftRight_eq_div_pow, UInt8.toNat_ofNat']
  rw [marks, ← Nat.two_pow_add_eq_or_of_lt fits, Nat.add_comm]

end Encoder

/-- One turn of the loop writes the UTF-8 encoding of its character. -/
theorem encodeCharacter_eq (c : Char) : encodeCharacter c.val = String.utf8EncodeChar c := by
  have limit : c.val.toNat < 0x110000 := by
    have valid := c.valid
    simp only [UInt32.isValidChar, Nat.isValidChar] at valid
    omega
  have six : (6 : UInt32).toNat = 6 := rfl
  have twelve : (12 : UInt32).toNat = 12 := rfl
  have eighteen : (18 : UInt32).toNat = 18 := rfl
  have last := @continuationByte_eq c.val 0 (by decide)
  have second := @continuationByte_eq c.val 6 (by decide)
  have third := @continuationByte_eq c.val 12 (by decide)
  rw [UInt32.toNat_zero, pow_zero, Nat.div_one] at last
  rw [six] at second
  rw [twelve] at third
  unfold encodeCharacter String.utf8EncodeChar
  simp only [UInt32.lt_iff_toNat_lt, UInt32.reduceToNat]
  rcases lt_or_ge c.val.toNat 0x80 with one | more
  · rw [if_pos one, if_pos (Nat.le_of_lt_succ one)]
    rfl
  rw [if_neg (not_lt_of_ge more), if_neg (Nat.not_le_of_gt more)]
  rcases lt_or_ge c.val.toNat 0x800 with two | more
  · have lead := @leadByte_eq c.val 0xC0 6 5 6 (by decide) rfl (by rw [six]; omega)
    rw [six] at lead
    rw [if_pos two, if_pos (Nat.le_of_lt_succ two), lead, last,
      Nat.mod_eq_of_lt (show c.val.toNat / 64 < 0x20 by omega)]
    rfl
  rw [if_neg (not_lt_of_ge more), if_neg (Nat.not_le_of_gt more)]
  rcases lt_or_ge c.val.toNat 0x10000 with three | more
  · have lead := @leadByte_eq c.val 0xE0 12 4 14 (by decide) rfl (by rw [twelve]; omega)
    rw [twelve] at lead
    rw [if_pos three, if_pos (Nat.le_of_lt_succ three), lead, second, last,
      Nat.mod_eq_of_lt (show c.val.toNat / 4096 < 0x10 by omega)]
    rfl
  · have lead := @leadByte_eq c.val 0xF0 18 3 30 (by decide) rfl (by rw [eighteen]; omega)
    rw [eighteen] at lead
    rw [if_neg (not_lt_of_ge more), if_neg (Nat.not_le_of_gt more), lead, third, second, last,
      Nat.mod_eq_of_lt (show c.val.toNat / 262144 < 0x08 by omega)]
    rfl

/-- The loop writes UTF-8. -/
theorem encodeUtf8_eq (text : String) : encodeUtf8 (text.toList.map Char.val) = utf8 text := by
  rw [encodeUtf8, List.flatMap_map, utf8]
  exact List.flatMap_congr fun c _ => encodeCharacter_eq c

/-- What the loop writes is UTF-8 of shortest form, and decodes to the characters it was given. -/
theorem encodeUtf8_wellFormed_and_decodes (characters : List Char) :
    WellFormedUtf8 (encodeUtf8 (characters.map Char.val)) ∧
      (encodeUtf8 (characters.map Char.val)).toByteArray.utf8Decode? =
        some characters.toArray := by
  have encoded := encodeUtf8_eq (String.ofList characters)
  rw [utf8_ofList, String.toList_ofList] at encoded
  rw [encoded]
  exact ⟨wellFormedUtf8_flatMap characters, utf8Decode?_flatMap characters⟩

namespace TypeBridge

section Texts

variable {core : ProtoCore} {engine : Engine String} {decoder : Decoder}

/-- What comes back is the text up to its first U+0000. -/
theorem returns_string_iff (reads : ReadsTexts core engine decoder) (text : String)
    (result : JSValue String) :
    Returns core engine (.string text) result ↔ result = .string (beforeNul text) := by
  have whole : '\x00' ∉ (beforeNul text).toList := by
    rw [← zero_mem_utf8, ← beforeZero_utf8]
    exact zero_notMem_beforeZero _
  have nothingCut : beforeZero (utf8 (beforeNul text)) = utf8 (beforeNul text) := by
    rw [beforeZero_eq_self_iff, zero_mem_utf8]
    exact whole
  apply returns_iff
  rw [fromJS, reads.toCString, Strings.toCString, beforeZero_utf8, toJS, core.kind_fromUTF8String]
  simp only [reads.characters _ whole, encodeUtf8_eq, nothingCut, reads.newString,
    Decoder.newString, decoder.decode_utf8]

/-- A text comes back exactly when U+0000 is not in it. -/
theorem string_returns_iff (core : ProtoCore) (engine : Engine String) (decoder : Decoder)
    (reads : ReadsTexts core engine decoder) (s : String) :
    Returns core engine (.string s) (.string s) ↔ '\x00' ∉ s.toList := by
  rw [returns_string_iff reads, JSValue.string.injEq, eq_comm, beforeNul_eq_self_iff]

/-- Characters of one, two, three and four bytes. -/
theorem string_returns_four :
    Returns .terms .lossy (.string "aé€𝄞") (.string "aé€𝄞") :=
  (string_returns_iff .terms .lossy .lossy .lossy _).mpr (by decide)

/-- Nothing behind U+0000 comes back. -/
theorem not_string_returns_nul :
    ¬Returns .terms .lossy (.string "a\x00b") (.string "a\x00b") := by
  rw [returns_string_iff .lossy, JSValue.string.injEq]
  decide

end Texts

end TypeBridge

end ProtoJS.Bridge
