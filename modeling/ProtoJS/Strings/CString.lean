import Mathlib

/-! # C strings

A text of Unicode scalar values crosses into C++ as its UTF-8 encoding, and whoever measures it
with `strlen` sees what stands before the first zero byte. Bytes come back as text through a
decoder, which restores valid UTF-8 and puts replacement characters where it is not valid.
-/

namespace ProtoJS.Strings

def utf8 (text : String) : List UInt8 := text.toList.flatMap String.utf8EncodeChar

/-- The bytes before the first zero. -/
def beforeZero (bytes : List UInt8) : List UInt8 := bytes.takeWhile (· ≠ 0)

/-- The characters before the first U+0000. -/
def beforeNul (text : String) : String := String.ofList (text.toList.takeWhile (· ≠ '\x00'))

/-- What `strlen` measures of the string that `JS_ToCString` returns. -/
def toCString (text : String) : List UInt8 := beforeZero (utf8 text)

theorem utf8_ofList (chars : List Char) :
    utf8 (String.ofList chars) = chars.flatMap String.utf8EncodeChar := by
  rw [utf8, String.toList_ofList]

theorem utf8EncodeChar_of_lt {c : Char} (ascii : c.toNat < 128) :
    String.utf8EncodeChar c = [UInt8.ofNat c.toNat] := by
  have small : c.val.toNat ≤ 127 := Nat.le_of_lt_succ ascii
  rw [String.utf8EncodeChar, if_pos small]
  rfl

/-- Beyond ASCII, UTF-8 spends no ASCII byte. -/
theorem high_of_mem_utf8EncodeChar {c : Char} {byte : UInt8} (high : 128 ≤ c.toNat)
    (member : byte ∈ String.utf8EncodeChar c) : 128 ≤ byte.toNat := by
  have large : ¬ c.val.toNat ≤ 127 := Nat.not_le.mpr high
  rw [String.utf8EncodeChar, if_neg large] at member
  have bound {value : ℕ} (low : 128 ≤ value) (small : value < 256) :
      128 ≤ (UInt8.ofNat value).toNat := by
    rwa [UInt8.toNat_ofNat', Nat.mod_eq_of_lt small]
  split_ifs at member
  · simp only [List.mem_cons, List.not_mem_nil, or_false] at member
    rcases member with rfl | rfl <;> exact bound (by omega) (by omega)
  · simp only [List.mem_cons, List.not_mem_nil, or_false] at member
    rcases member with rfl | rfl | rfl <;> exact bound (by omega) (by omega)
  · simp only [List.mem_cons, List.not_mem_nil, or_false] at member
    rcases member with rfl | rfl | rfl | rfl <;> exact bound (by omega) (by omega)

/-- UTF-8 spends the zero byte on U+0000 alone. -/
theorem zero_mem_utf8EncodeChar {c : Char} : 0 ∈ String.utf8EncodeChar c ↔ c = '\x00' := by
  have point : c = '\x00' ↔ c.toNat = 0 := by
    rw [Char.ext_iff, ← UInt32.toNat_inj]
    rfl
  rw [point]
  rcases lt_or_ge c.toNat 128 with ascii | high
  · rw [utf8EncodeChar_of_lt ascii, List.mem_singleton, ← UInt8.toNat_inj, UInt8.toNat_ofNat',
      Nat.mod_eq_of_lt (by omega), eq_comm]
    rfl
  · refine iff_of_false ?_ (by omega)
    intro member
    exact absurd (high_of_mem_utf8EncodeChar high member) (by decide)

theorem zero_mem_utf8 {text : String} : 0 ∈ utf8 text ↔ '\x00' ∈ text.toList := by
  simp only [utf8, List.mem_flatMap, zero_mem_utf8EncodeChar, exists_eq_right]

theorem takeWhile_ne_eq_self_iff {α : Type*} [DecidableEq α] {item : α} {items : List α} :
    items.takeWhile (· ≠ item) = items ↔ item ∉ items := by
  rw [List.takeWhile_eq_self_iff]
  constructor
  · intro different member
    simpa using different item member
  · intro absent other member
    simp only [decide_eq_true_eq]
    rintro rfl
    exact absent member

theorem beforeZero_eq_self_iff {bytes : List UInt8} : beforeZero bytes = bytes ↔ 0 ∉ bytes :=
  takeWhile_ne_eq_self_iff

theorem zero_notMem_beforeZero (bytes : List UInt8) : 0 ∉ beforeZero bytes := by
  intro member
  simpa using List.mem_takeWhile_imp member

theorem length_beforeZero_le (bytes : List UInt8) : (beforeZero bytes).length ≤ bytes.length :=
  (List.takeWhile_prefix _).length_le

theorem beforeNul_eq_self_iff {text : String} : beforeNul text = text ↔ '\x00' ∉ text.toList := by
  rw [beforeNul, ← String.toList_inj, String.toList_ofList, takeWhile_ne_eq_self_iff]

/-- Cutting the encoding at its first zero byte is cutting the text at its first U+0000. -/
theorem beforeZero_utf8 (text : String) : beforeZero (utf8 text) = utf8 (beforeNul text) := by
  rw [beforeNul, utf8_ofList, utf8]
  induction text.toList with
  | nil => rfl
  | cons c rest ih =>
    rw [List.flatMap_cons]
    rcases eq_or_ne c '\x00' with rfl | other
    · rfl
    · have nonzero : ∀ byte ∈ String.utf8EncodeChar c, decide (byte ≠ 0) = true := by
        intro byte member
        simp only [decide_eq_true_eq]
        rintro rfl
        exact other (zero_mem_utf8EncodeChar.mp member)
      rw [beforeZero, List.takeWhile_append_of_pos nonzero, ← beforeZero, ih,
        List.takeWhile_cons_of_pos (by simpa using other), List.flatMap_cons]

theorem toCString_eq_utf8_iff {text : String} :
    toCString text = utf8 text ↔ '\x00' ∉ text.toList := by
  rw [toCString, beforeZero_eq_self_iff, zero_mem_utf8]

/-- What `JS_NewString` makes of bytes. No replacement takes more than three bytes of UTF-8 for
one byte it replaces. -/
structure Decoder where
  decode : List UInt8 → String
  decode_utf8 : ∀ text, decode (utf8 text) = text
  length_decode : ∀ bytes, (utf8 (decode bytes)).length ≤ 3 * bytes.length

namespace Decoder

/-- `JS_NewString(ctx, bytes.c_str())`. -/
def newString (decoder : Decoder) (bytes : List UInt8) : String :=
  decoder.decode (beforeZero bytes)

variable {decoder : Decoder} {bytes : List UInt8}

theorem newString_utf8 (text : String) : decoder.newString (utf8 text) = beforeNul text := by
  rw [newString, beforeZero_utf8, decoder.decode_utf8]

theorem length_newString_le (bytes : List UInt8) :
    (utf8 (decoder.newString bytes)).length ≤ 3 * bytes.length :=
  (decoder.length_decode _).trans (Nat.mul_le_mul_left 3 (length_beforeZero_le bytes))

/-- Bytes survive the way through a text and back if and only if they are valid UTF-8 without a
zero byte. -/
theorem toCString_newString_eq_iff :
    toCString (decoder.newString bytes) = bytes ↔ 0 ∉ bytes ∧ ∃ text, utf8 text = bytes := by
  constructor
  · intro survived
    have nonzero : 0 ∉ bytes := survived ▸ zero_notMem_beforeZero _
    refine ⟨nonzero, beforeNul (decoder.newString bytes), ?_⟩
    rw [← beforeZero_utf8]
    exact survived
  · rintro ⟨nonzero, text, rfl⟩
    have whole : beforeZero (utf8 text) = utf8 text := beforeZero_eq_self_iff.mpr nonzero
    rw [newString, whole, decoder.decode_utf8, toCString, whole]

end Decoder

/-- Decoding with U+FFFD for each byte that starts no encoded character. -/
def lossyChars : ℕ → List UInt8 → List Char
  | 0, _ => []
  | _, [] => []
  | fuel + 1, byte :: rest =>
    match (byte :: rest).toByteArray.utf8DecodeChar? 0 with
    | some c => c :: lossyChars fuel ((byte :: rest).drop c.utf8Size)
    | none => '\uFFFD' :: lossyChars fuel rest

private theorem lossyChars_cons {fuel : ℕ} {c : Char} {bytes : List UInt8} :
    lossyChars (fuel + 1) (String.utf8EncodeChar c ++ bytes) = c :: lossyChars fuel bytes := by
  have decoded : (String.utf8EncodeChar c ++ bytes).toByteArray.utf8DecodeChar? 0 = some c := by
    rw [List.toByteArray_append]
    exact ByteArray.utf8DecodeChar?_utf8EncodeChar_append
  have dropped : (String.utf8EncodeChar c ++ bytes).drop c.utf8Size = bytes := by
    rw [← String.length_utf8EncodeChar, List.drop_left]
  obtain ⟨byte, rest, split⟩ : ∃ byte rest, String.utf8EncodeChar c ++ bytes = byte :: rest :=
    List.exists_cons_of_ne_nil (by simp [String.utf8EncodeChar_ne_nil])
  rw [split] at decoded dropped ⊢
  rw [lossyChars, decoded]
  simp only [dropped]

private theorem lossyChars_flatMap (chars : List Char) (fuel : ℕ)
    (enough : (chars.flatMap String.utf8EncodeChar).length ≤ fuel) :
    lossyChars fuel (chars.flatMap String.utf8EncodeChar) = chars := by
  induction chars generalizing fuel with
  | nil => cases fuel <;> rfl
  | cons c rest ih =>
    have positive : 0 < (String.utf8EncodeChar c).length :=
      List.length_pos_iff.mpr String.utf8EncodeChar_ne_nil
    rw [List.flatMap_cons, List.length_append] at enough
    obtain ⟨fuel, rfl⟩ : ∃ less, fuel = less + 1 := ⟨fuel - 1, by omega⟩
    rw [List.flatMap_cons, lossyChars_cons, ih fuel (by omega)]

private theorem length_lossyChars (fuel : ℕ) (bytes : List UInt8) :
    ((lossyChars fuel bytes).flatMap String.utf8EncodeChar).length ≤ 3 * bytes.length := by
  induction fuel generalizing bytes with
  | zero => simp [lossyChars]
  | succ fuel ih =>
    rcases bytes with _ | ⟨byte, rest⟩
    · simp [lossyChars]
    · unfold lossyChars
      split
      · rename_i c decoded
        have consumed := ByteArray.le_size_of_utf8DecodeChar?_eq_some decoded
        have remaining := ih ((byte :: rest).drop c.utf8Size)
        rw [List.length_drop] at remaining
        rw [List.flatMap_cons, List.length_append, String.length_utf8EncodeChar]
        simp only [List.size_toByteArray, Nat.zero_add] at consumed
        omega
      · have remaining := ih rest
        have replacement : (String.utf8EncodeChar '\uFFFD').length = 3 := by decide
        rw [List.flatMap_cons, List.length_append, List.length_cons, replacement]
        omega

/-- A decoder there is. -/
def Decoder.lossy : Decoder where
  decode bytes := String.ofList (lossyChars bytes.length bytes)
  decode_utf8 text := by
    rw [utf8, lossyChars_flatMap _ _ le_rfl, String.ofList_toList]
  length_decode bytes := by
    rw [utf8_ofList]
    exact length_lossyChars _ _

end ProtoJS.Strings
