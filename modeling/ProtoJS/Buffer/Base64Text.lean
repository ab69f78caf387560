import ProtoJS.Buffer.Encodings

/-! # Bytes as base64 text

Three bytes are written as four characters and read back. Of one or two bytes at the end, the
decoder takes the value too low: it passes over the padding and does not shift for it.
-/

namespace ProtoJS.Buffer

section Blocks

theorem base64Index_getD {index : ℕ} (small : index < 64) :
    base64Index (base64Chars.getD index 0) = some index ∧ base64Chars.getD index 0 ≠ 61 := by
  have all : ∀ index < 64, base64Index (base64Chars.getD index 0) = some index ∧
      base64Chars.getD index 0 ≠ 61 := by
    decide +kernel
  exact all index small

theorem base64Index_padding : base64Index 61 = none := by decide +kernel

/-- Six bits are put behind a value. -/
theorem toNat_shift_or {value : UInt32} {index : ℕ} (room : value.toNat < 2 ^ 26)
    (small : index < 64) :
    ((value <<< 6) ||| UInt32.ofNat index).toNat = value.toNat * 64 + index := by
  have shifted : (value <<< 6).toNat = value.toNat <<< 6 := by
    rw [UInt32.toNat_shiftLeft]
    change value.toNat <<< 6 % 2 ^ 32 = _
    rw [Nat.shiftLeft_eq]
    exact Nat.mod_eq_of_lt (by omega)
  have low : (UInt32.ofNat index).toNat = index := by
    rw [UInt32.toNat_ofNat']
    exact Nat.mod_eq_of_lt (by omega)
  rw [UInt32.toNat_or, shifted, low, ← Nat.shiftLeft_add_eq_or_of_lt (by omega), Nat.shiftLeft_eq]

/-- The number that the bytes of a block are. -/
def blockValue (a b c : UInt8) : UInt32 := a.toUInt32 <<< 16 ||| b.toUInt32 <<< 8 ||| c.toUInt32

theorem toNat_blockValue (a b c : UInt8) :
    (blockValue a b c).toNat = a.toNat * 65536 + b.toNat * 256 + c.toNat := by
  have high := a.toNat_lt
  have middle := b.toNat_lt
  have low := c.toNat_lt
  have first : (a.toUInt32 <<< 16).toNat = a.toNat <<< 16 := by
    rw [UInt32.toNat_shiftLeft, UInt8.toNat_toUInt32]
    change a.toNat <<< 16 % 2 ^ 32 = _
    rw [Nat.shiftLeft_eq]
    exact Nat.mod_eq_of_lt (by omega)
  have second : (b.toUInt32 <<< 8).toNat = b.toNat <<< 8 := by
    rw [UInt32.toNat_shiftLeft, UInt8.toNat_toUInt32]
    change b.toNat <<< 8 % 2 ^ 32 = _
    rw [Nat.shiftLeft_eq]
    exact Nat.mod_eq_of_lt (by omega)
  have lower : b.toNat <<< 8 ||| c.toNat = b.toNat * 256 + c.toNat := by
    rw [← Nat.shiftLeft_add_eq_or_of_lt (by omega), Nat.shiftLeft_eq]
  have small : b.toNat * 256 + c.toNat < 2 ^ 16 := by omega
  rw [blockValue, UInt32.or_assoc, UInt32.toNat_or, UInt32.toNat_or, first, second,
    UInt8.toNat_toUInt32, lower, ← Nat.shiftLeft_add_eq_or_of_lt small, Nat.shiftLeft_eq]
  omega

/-- A character of the alphabet stands for six bits of the value. -/
theorem base64Char_eq (value : UInt32) {shift : UInt32} (small : shift.toNat < 32) :
    base64Char value shift = base64Chars.getD (value.toNat / 2 ^ shift.toNat % 64) 0 := by
  have bits : ((value >>> shift) &&& 63).toNat = value.toNat / 2 ^ shift.toNat % 64 := by
    rw [UInt32.toNat_and, UInt32.toNat_shiftRight, Nat.mod_eq_of_lt small, Nat.shiftRight_eq_div_pow]
    exact Nat.and_two_pow_sub_one_eq_mod _ 6
  rw [base64Char, bits]

/-- One turn of the inner loop of the decoder. -/
def pushChar (val : UInt32) (byte : UInt8) : UInt32 :=
  match base64Index byte with
  | some index => (val <<< 6) ||| UInt32.ofNat index
  | none => val

theorem base64Value_eq (block : List UInt8) : base64Value block = block.foldl pushChar 0 := rfl

theorem pushChar_padding (val : UInt32) : pushChar val 61 = val := by
  rw [pushChar, base64Index_padding]

theorem toNat_pushChar {val : UInt32} {index : ℕ} (room : val.toNat < 2 ^ 26)
    (small : index < 64) :
    (pushChar val (base64Chars.getD index 0)).toNat = val.toNat * 64 + index := by
  rw [pushChar, (base64Index_getD small).1]
  exact toNat_shift_or room small

theorem toUInt8_shift (value : UInt32) {shift : UInt32} (small : shift.toNat < 32) :
    (value >>> shift).toUInt8 = UInt8.ofNat (value.toNat / 2 ^ shift.toNat) := by
  rw [← UInt8.toNat_inj, UInt32.toNat_toUInt8, UInt32.toNat_shiftRight, Nat.mod_eq_of_lt small,
    Nat.shiftRight_eq_div_pow, UInt8.toNat_ofNat']

theorem toUInt8_eq (value : UInt32) : value.toUInt8 = UInt8.ofNat value.toNat := by
  rw [← UInt8.toNat_inj, UInt32.toNat_toUInt8, UInt8.toNat_ofNat']

theorem ofNat_eq_iff {n : ℕ} {byte : UInt8} : UInt8.ofNat n = byte ↔ n % 256 = byte.toNat := by
  rw [← UInt8.toNat_inj, UInt8.toNat_ofNat']

/-- The bytes that are taken of four characters. -/
theorem decodeBase64Block_eq (w x y z : UInt8) : decodeBase64Block [w, x, y, z] =
    let value := (base64Value [w, x, y, z]).toNat
    UInt8.ofNat (value / 2 ^ 16) :: ((if y ≠ 61 then [UInt8.ofNat (value / 2 ^ 8)] else []) ++
      if z ≠ 61 then [UInt8.ofNat value] else []) := by
  have sixteen : (16 : UInt32).toNat = 16 := rfl
  have eight : (8 : UInt32).toNat = 8 := rfl
  simp only [decodeBase64Block, toUInt8_shift _ (sixteen ▸ by decide : (16 : UInt32).toNat < 32),
    toUInt8_shift _ (eight ▸ by decide : (8 : UInt32).toNat < 32), toUInt8_eq, sixteen, eight,
    List.getElem?_cons_succ, List.getElem?_cons_zero, Option.any_some, decide_eq_true_eq,
    List.cons_append, List.nil_append]

end Blocks

section Decoded

variable (a b c : UInt8)

/-- The characters of a block are those of the six bits of its value. -/
theorem encodeBase64Block_eq (b c : Option UInt8) :
    encodeBase64Block a b c =
      let value := a.toNat * 65536 + (b.getD 0).toNat * 256 + (c.getD 0).toNat
      [base64Chars.getD (value / 2 ^ 18 % 64) 0, base64Chars.getD (value / 2 ^ 12 % 64) 0,
        if b.isSome then base64Chars.getD (value / 2 ^ 6 % 64) 0 else 61,
        if c.isSome then base64Chars.getD (value % 64) 0 else 61] := by
  rw [encodeBase64Block]
  dsimp only
  rw [← blockValue, base64Char_eq _ (by decide), base64Char_eq _ (by decide),
    base64Char_eq _ (by decide), base64Char_eq _ (by decide), toNat_blockValue]
  have last (value : ℕ) : value / 2 ^ (0 : UInt32).toNat = value := Nat.div_one _
  rw [last]
  rfl

section Values

variable {i j k l : ℕ}

/-- The values of two, three and four characters. -/
theorem toNat_pushChar_two (first : i < 64) (second : j < 64) :
    (pushChar (pushChar 0 (base64Chars.getD i 0)) (base64Chars.getD j 0)).toNat = i * 64 + j := by
  have one : (pushChar 0 (base64Chars.getD i 0)).toNat = i := by
    rw [toNat_pushChar (by decide) first]
    exact Nat.zero_add i
  rw [toNat_pushChar (by omega) second, one]

theorem toNat_pushChar_three (first : i < 64) (second : j < 64) (third : k < 64) :
    (pushChar (pushChar (pushChar 0 (base64Chars.getD i 0)) (base64Chars.getD j 0))
      (base64Chars.getD k 0)).toNat = (i * 64 + j) * 64 + k := by
  have two := toNat_pushChar_two first second
  rw [toNat_pushChar (by omega) third, two]

theorem toNat_pushChar_four (first : i < 64) (second : j < 64) (third : k < 64)
    (fourth : l < 64) :
    (pushChar (pushChar (pushChar (pushChar 0 (base64Chars.getD i 0)) (base64Chars.getD j 0))
      (base64Chars.getD k 0)) (base64Chars.getD l 0)).toNat = ((i * 64 + j) * 64 + k) * 64 + l := by
  have three := toNat_pushChar_three first second third
  rw [toNat_pushChar (by omega) fourth, three]

/-- The bytes of two, three and four characters. -/
theorem decodeBase64Block_chars_two (first : i < 64) (second : j < 64) :
    decodeBase64Block [base64Chars.getD i 0, base64Chars.getD j 0, 61, 61] =
      [UInt8.ofNat ((i * 64 + j) / 2 ^ 16)] := by
  have read := toNat_pushChar_two first second
  rw [decodeBase64Block_eq, base64Value_eq]
  simp only [List.foldl_cons, List.foldl_nil, pushChar_padding, read]
  rfl

theorem decodeBase64Block_chars_three (first : i < 64) (second : j < 64) (third : k < 64) :
    decodeBase64Block [base64Chars.getD i 0, base64Chars.getD j 0, base64Chars.getD k 0, 61] =
      [UInt8.ofNat (((i * 64 + j) * 64 + k) / 2 ^ 16),
        UInt8.ofNat (((i * 64 + j) * 64 + k) / 2 ^ 8)] := by
  have read := toNat_pushChar_three first second third
  rw [decodeBase64Block_eq, base64Value_eq]
  simp only [List.foldl_cons, List.foldl_nil, pushChar_padding, read]
  rw [if_pos (base64Index_getD third).2]
  rfl

theorem decodeBase64Block_chars_four (first : i < 64) (second : j < 64) (third : k < 64)
    (fourth : l < 64) :
    decodeBase64Block [base64Chars.getD i 0, base64Chars.getD j 0, base64Chars.getD k 0,
      base64Chars.getD l 0] =
      [UInt8.ofNat ((((i * 64 + j) * 64 + k) * 64 + l) / 2 ^ 16),
        UInt8.ofNat ((((i * 64 + j) * 64 + k) * 64 + l) / 2 ^ 8),
        UInt8.ofNat (((i * 64 + j) * 64 + k) * 64 + l)] := by
  have read := toNat_pushChar_four first second third fourth
  rw [decodeBase64Block_eq, base64Value_eq]
  simp only [List.foldl_cons, List.foldl_nil, read]
  rw [if_pos (base64Index_getD third).2, if_pos (base64Index_getD fourth).2]
  rfl

end Values

theorem toNat_zero : (0 : UInt8).toNat = 0 := rfl

/-- Three bytes come back. -/
theorem decodeBase64Block_three :
    decodeBase64Block (encodeBase64Block a (some b) (some c)) = [a, b, c] := by
  have high := a.toNat_lt
  have middle := b.toNat_lt
  have low := c.toNat_lt
  rw [encodeBase64Block_eq]
  dsimp only [Option.getD_some, Option.isSome_some]
  rw [if_pos rfl, if_pos rfl]
  generalize number : a.toNat * 65536 + b.toNat * 256 + c.toNat = value
  have whole : ((value / 2 ^ 18 % 64 * 64 + value / 2 ^ 12 % 64) * 64 + value / 2 ^ 6 % 64) * 64 +
      value % 64 = value := by omega
  have first : UInt8.ofNat (value / 2 ^ 16) = a := by
    rw [ofNat_eq_iff]
    omega
  have second : UInt8.ofNat (value / 2 ^ 8) = b := by
    rw [ofNat_eq_iff]
    omega
  have last : UInt8.ofNat value = c := by
    rw [ofNat_eq_iff]
    omega
  rw [decodeBase64Block_chars_four (Nat.mod_lt _ (by decide)) (Nat.mod_lt _ (by decide))
    (Nat.mod_lt _ (by decide)) (Nat.mod_lt _ (by decide)), whole, first, second, last]

/-- Of one byte nothing comes back: its bits are below those that are taken. -/
theorem decodeBase64Block_one :
    decodeBase64Block (encodeBase64Block a none none) = [0] := by
  have high := a.toNat_lt
  rw [encodeBase64Block_eq]
  dsimp only [Option.getD_none, Option.isSome_none]
  rw [if_neg (by decide), if_neg (by decide), toNat_zero]
  generalize number : a.toNat * 65536 + 0 * 256 + 0 = value
  have nothing : UInt8.ofNat ((value / 2 ^ 18 % 64 * 64 + value / 2 ^ 12 % 64) / 2 ^ 16) = 0 := by
    rw [ofNat_eq_iff, toNat_zero]
    omega
  rw [decodeBase64Block_chars_two (Nat.mod_lt _ (by decide)) (Nat.mod_lt _ (by decide)), nothing]

/-- Of two bytes come back the two highest bits of the first one, and the two highest bits of the
second one behind the others of the first. -/
theorem decodeBase64Block_two :
    decodeBase64Block (encodeBase64Block a (some b) none) =
      [UInt8.ofNat (a.toNat / 64), UInt8.ofNat (a.toNat * 4 + b.toNat / 64)] := by
  have high := a.toNat_lt
  have middle := b.toNat_lt
  rw [encodeBase64Block_eq]
  dsimp only [Option.getD_none, Option.getD_some, Option.isSome_none, Option.isSome_some]
  rw [if_pos rfl, if_neg (by decide), toNat_zero]
  generalize number : a.toNat * 65536 + b.toNat * 256 + 0 = value
  have whole : (value / 2 ^ 18 % 64 * 64 + value / 2 ^ 12 % 64) * 64 + value / 2 ^ 6 % 64 =
      a.toNat * 1024 + b.toNat * 4 := by omega
  have first : (a.toNat * 1024 + b.toNat * 4) / 2 ^ 16 = a.toNat / 64 := by omega
  have second : (a.toNat * 1024 + b.toNat * 4) / 2 ^ 8 = a.toNat * 4 + b.toNat / 64 := by omega
  rw [decodeBase64Block_chars_three (Nat.mod_lt _ (by decide)) (Nat.mod_lt _ (by decide))
    (Nat.mod_lt _ (by decide)), whole, first, second]

end Decoded

section RoundTrip

/-- A block is decoded by itself, whatever follows it. -/
theorem decodeBase64_block (a : UInt8) (b c : Option UInt8) (rest : List UInt8) :
    decodeBase64 (encodeBase64Block a b c ++ rest) =
      decodeBase64Block (encodeBase64Block a b c) ++ decodeBase64 rest := by
  rw [encodeBase64Block_eq]
  rfl

theorem decodeBase64_block_nil (a : UInt8) (b c : Option UInt8) :
    decodeBase64 (encodeBase64Block a b c) = decodeBase64Block (encodeBase64Block a b c) := by
  have block := decodeBase64_block a b c []
  rwa [List.append_nil, decodeBase64, List.append_nil] at block

/-- The bytes behind the last three that are together. -/
def unpaired (bytes : List UInt8) : List UInt8 := bytes.drop (3 * (bytes.length / 3))

theorem unpaired_cons (a b c : UInt8) (rest : List UInt8) :
    unpaired (a :: b :: c :: rest) = unpaired rest := by
  have third : 3 * ((a :: b :: c :: rest).length / 3) = 3 * (rest.length / 3) + 1 + 1 + 1 := by
    simp only [List.length_cons]
    omega
  rw [unpaired, third, List.drop_succ_cons, List.drop_succ_cons, List.drop_succ_cons, ← unpaired]

theorem decodeBase64_encodeBase64_iff (bytes : List UInt8) :
    decodeBase64 (encodeBase64 bytes) = bytes ↔ ∀ byte ∈ unpaired bytes, byte = 0 := by
  fun_induction encodeBase64 bytes with
  | case1 => simp [decodeBase64, unpaired]
  | case2 a =>
    rw [decodeBase64_block_nil, decodeBase64Block_one]
    simp [unpaired, eq_comm]
  | case3 a b =>
    rw [decodeBase64_block_nil, decodeBase64Block_two]
    have high := a.toNat_lt
    have low := b.toNat_lt
    have zero (byte : UInt8) : byte = 0 ↔ byte.toNat = 0 := by
      rw [← UInt8.toNat_inj]
      rfl
    have behind : unpaired [a, b] = [a, b] := by simp [unpaired]
    rw [behind, List.forall_mem_cons, List.forall_mem_singleton, List.cons.injEq, List.singleton_inj,
      ofNat_eq_iff, ofNat_eq_iff, zero, zero]
    constructor
    · rintro ⟨first, second⟩
      have zeroFirst : a.toNat = 0 := by omega
      rw [zeroFirst] at second
      exact ⟨zeroFirst, by omega⟩
    · rintro ⟨first, second⟩
      rw [first, second]
      exact ⟨rfl, rfl⟩
  | case4 a b c rest ih =>
    rw [decodeBase64_block, decodeBase64Block_three, unpaired_cons, ← ih]
    simp

/-- Bytes come back from base64 exactly when those behind the last three that are together are
zero. -/
theorem base64_roundTrip_iff (bytes : List UInt8) :
    decodeStringHelper "base64" (encodeStringHelper "base64" bytes) = bytes ↔
      ∀ byte ∈ unpaired bytes, byte = 0 := by
  rw [← decodeBase64_encodeBase64_iff]
  rfl

/-- A single byte comes back as a zero. -/
theorem not_base64_roundTrip_one :
    decodeStringHelper "base64" (encodeStringHelper "base64" [1]) = [0] ∧
      decodeStringHelper "base64" (encodeStringHelper "base64" [1]) ≠ [1] := by
  decide +kernel

end RoundTrip

end ProtoJS.Buffer
