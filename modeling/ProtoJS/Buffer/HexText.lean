import ProtoJS.Buffer.TextRoundTrip
import ProtoJS.Strings.ByteText

/-! # Bytes as hexadecimal text

Every byte is written as two digits, and two digits are read as a byte. Two other characters are
read as some byte too, since `strtoul` skips spaces and a sign and is content with no digit at all.
-/

namespace ProtoJS.Buffer

open Strings Words

section Digits

/-- What holds of the numbers below 256 holds of the bytes. -/
theorem forall_byte {P : UInt8 → Prop} (all : ∀ n < 256, P (UInt8.ofNat n)) (byte : UInt8) :
    P byte := by
  have this := all byte.toNat byte.toNat_lt
  rwa [UInt8.ofNat_toNat] at this

theorem strtoul_digits (byte : UInt8) :
    strtoul [hexDigit (byte / 16), hexDigit (byte % 16)] = byte := by
  revert byte
  exact forall_byte (by decide +kernel)

theorem decodeHex_encodeHex (bytes : List UInt8) : decodeHex (encodeHex bytes) = bytes := by
  induction bytes with
  | nil => rfl
  | cons byte rest ih =>
    have unfolded : encodeHex (byte :: rest) =
        hexDigit (byte / 16) :: hexDigit (byte % 16) :: encodeHex rest := rfl
    rw [unfolded, decodeHex, strtoul_digits, ih]

end Digits

section Texts

variable {decoder : Decoder} {alloc : Allocator} {bytes : List UInt8}

def lowerDigits : List Char :=
  ['0', '1', '2', '3', '4', '5', '6', '7', '8', '9', 'a', 'b', 'c', 'd', 'e', 'f']

/-- The two digits of a byte. -/
def hexPair (byte : UInt8) : List Char :=
  [charOfByte (hexDigit (byte / 16)), charOfByte (hexDigit (byte % 16))]

def hexText (bytes : List UInt8) : String := String.ofList (bytes.flatMap hexPair)

/-- What holds of the sixteen digits holds of both digits of a byte. -/
theorem forall_digit {P : UInt8 → Prop} (all : ∀ n < 16, P (hexDigit (UInt8.ofNat n)))
    (byte : UInt8) : P (hexDigit (byte / 16)) ∧ P (hexDigit (byte % 16)) := by
  have high : (byte / 16).toNat < 16 := by
    rw [UInt8.toNat_div]
    exact Nat.div_lt_of_lt_mul byte.toNat_lt
  have low : (byte % 16).toNat < 16 := by
    rw [UInt8.toNat_mod]
    exact Nat.mod_lt _ (by decide)
  have first := all _ high
  have second := all _ low
  rw [UInt8.ofNat_toNat] at first second
  exact ⟨first, second⟩

theorem hexPair_lower (byte : UInt8) : ∀ c ∈ hexPair byte, c ∈ lowerDigits := by
  have lower : ∀ n < 16, charOfByte (hexDigit (UInt8.ofNat n)) ∈ lowerDigits := by decide +kernel
  obtain ⟨high, low⟩ := forall_digit (P := fun digit => charOfByte digit ∈ lowerDigits) lower byte
  simp only [hexPair, List.forall_mem_cons]
  exact ⟨high, low, List.forall_mem_nil _⟩

theorem length_hexText (bytes : List UInt8) : (hexText bytes).toList.length = 2 * bytes.length := by
  rw [hexText, String.toList_ofList]
  induction bytes with
  | nil => rfl
  | cons byte rest ih =>
    rw [List.flatMap_cons, List.length_append, ih, List.length_cons]
    have pair : (hexPair byte).length = 2 := rfl
    omega

theorem hexText_lower (bytes : List UInt8) : ∀ c ∈ (hexText bytes).toList, c ∈ lowerDigits := by
  intro c member
  rw [hexText, String.toList_ofList] at member
  obtain ⟨byte, -, inside⟩ := List.mem_flatMap.1 member
  exact hexPair_lower byte c inside

/-- The text is what is written of the bytes, and it has no U+0000. -/
theorem utf8_hexText (bytes : List UInt8) :
    utf8 (hexText bytes) = encodeHex bytes ∧ '\x00' ∉ (hexText bytes).toList := by
  have ascii : ∀ byte ∈ encodeHex bytes, byte < 128 := by
    intro digit member
    obtain ⟨byte, -, inside⟩ := List.mem_flatMap.1 member
    have below : ∀ n < 16, hexDigit (UInt8.ofNat n) < 128 := by decide +kernel
    obtain ⟨high, low⟩ := forall_digit (P := (· < 128)) below byte
    simp only [List.mem_cons, List.not_mem_nil, or_false] at inside
    rcases inside with rfl | rfl
    · exact high
    · exact low
  have chars : bytes.flatMap hexPair = (encodeHex bytes).map charOfByte := by
    rw [encodeHex, List.map_flatMap]
    rfl
  refine ⟨by rw [hexText, chars, utf8_map_charOfByte ascii], fun nul => ?_⟩
  have digit := hexText_lower bytes _ nul
  revert digit
  decide

/-- What `toString('hex')` gives. -/
theorem bufferToString_hex (buffer : BufferObject) :
    bufferToString decoder buffer (some "hex") none none =
      some (hexText (shown buffer.bytes)) := by
  have name : encodingName (some "hex") = "hex" := by decide
  obtain ⟨bytes_eq, noNul⟩ := utf8_hexText (shown buffer.bytes)
  have whole : beforeNul (hexText (shown buffer.bytes)) = hexText (shown buffer.bytes) :=
    beforeNul_eq_self_iff.2 noNul
  rw [bufferToString_shown, name, encodeInToString, if_neg (by decide), if_pos rfl, ← bytes_eq,
    decoder.newString_utf8, whole]

theorem bufferFrom_hex (text : String) :
    bufferFrom alloc (some (.string text (some "hex"))) =
      .ok (.ofBytes (decodeHex (toCString text))) := by
  have name : encodingName (some "hex") = "hex" := by decide
  rw [bufferFrom, BufferConstructor, name, decodeInConstructor, if_neg (by decide), if_pos rfl]

theorem decodeHex_hexText (bytes : List UInt8) : decodeHex (toCString (hexText bytes)) = bytes := by
  obtain ⟨bytes_eq, noNul⟩ := utf8_hexText bytes
  rw [toCString_eq_utf8_iff.2 noNul, bytes_eq, decodeHex_encodeHex]

/-- The text of a buffer has two lower-case digits for each byte and is read back as its bytes. -/
def HexRoundTrips (decoder : Decoder) (alloc : Allocator) (bytes : List UInt8) : Prop :=
  ∃ text, bufferToString decoder (.ofBytes bytes) (some "hex") none none = some text ∧
    text.toList.length = 2 * bytes.length ∧ (∀ c ∈ text.toList, c ∈ lowerDigits) ∧
    ∃ made, bufferFrom alloc (some (.string text (some "hex"))) = .ok made ∧ made.bytes = bytes

/-- Bytes make the round trip exactly when there are fewer than 2^31 of them. -/
theorem hexRoundTrips_iff (decoder : Decoder) (alloc : Allocator) (bytes : List UInt8) :
    HexRoundTrips decoder alloc bytes ↔ bytes.length < 2 ^ 31 := by
  constructor
  · rintro ⟨text, written, length, -⟩
    rw [bufferToString_hex, Option.some_inj, BufferObject.ofBytes_bytes] at written
    rw [← written, length_hexText] at length
    by_contra large
    have lost := @length_shown_lt bytes (by omega)
    omega
  · intro small
    refine ⟨hexText bytes, ?_, length_hexText bytes, hexText_lower bytes, _, bufferFrom_hex _, ?_⟩
    · rw [bufferToString_hex, BufferObject.ofBytes_bytes, shown_of_small small]
    · rw [BufferObject.ofBytes_bytes, decodeHex_hexText]

/-- A buffer of 2^31 zeros is shown as the empty text. -/
theorem not_hexRoundTrips_zeros :
    ¬HexRoundTrips .lossy .zeros (List.replicate (2 ^ 31) 0) ∧
      bufferToString .lossy (.ofBytes (List.replicate (2 ^ 31) 0)) (some "hex") none none =
        some "" := by
  have size : (List.replicate (2 ^ 31) (0 : UInt8)).length = 2 ^ 31 := List.length_replicate
  have nothing : shown (List.replicate (2 ^ 31) (0 : UInt8)) = [] := by
    have wrapped : toInt ((2 : ℕ) ^ 31 : ℕ) = -2 ^ 31 := by decide
    have negative : (-2 ^ 31 : ℤ).toNat = 0 := by decide
    rw [shown, size, wrapped, negative, List.take_zero]
  have text : bufferToString .lossy (.ofBytes (List.replicate (2 ^ 31) 0)) (some "hex") none none =
      some "" := by
    rw [bufferToString_hex, BufferObject.ofBytes_bytes, nothing]
    rfl
  refine ⟨?_, text⟩
  rintro ⟨written, same, length, -⟩
  rw [text, Option.some_inj] at same
  rw [← same, size] at length
  revert length
  decide

end Texts

section Strings

variable {chars p : List Char}

def hexDigits : List Char := lowerDigits ++ ['A', 'B', 'C', 'D', 'E', 'F']

/-- A start of a text that is made of pairs of digits. -/
structure HexPrefix (chars p : List Char) : Prop where
  start : p <+: chars
  even : Even p.length
  digits : ∀ c ∈ p, c ∈ hexDigits

structure LongestHexPrefix (chars p : List Char) : Prop extends HexPrefix chars p where
  longest : ∀ q, HexPrefix chars q → q.length ≤ p.length

/-- The characters without an odd one at the end. -/
def paired (chars : List Char) : List Char := chars.take (2 * (chars.length / 2))

/-- What comes back of a text that is read as hexadecimal is its longest start of digits. -/
def InventsNoBytes (decoder : Decoder) (alloc : Allocator) (text : String) : Prop :=
  ∃ made shown p, bufferFrom alloc (some (.string text (some "hex"))) = .ok made ∧
    bufferToString decoder made (some "hex") none none = some shown ∧
    LongestHexPrefix text.toList p ∧ shown.toList = p.map Char.toLower

theorem length_paired (chars : List Char) : (paired chars).length = 2 * (chars.length / 2) := by
  rw [paired, List.length_take]
  omega

theorem HexPrefix.length_le (isPrefix : HexPrefix chars p) :
    p.length ≤ (paired chars).length := by
  obtain ⟨k, even⟩ := isPrefix.even
  have short := isPrefix.start.length_le
  rw [length_paired]
  omega

theorem HexPrefix.eq_paired (isPrefix : HexPrefix chars p)
    (long : (paired chars).length ≤ p.length) : p = paired chars := by
  have start : paired chars <+: chars := List.take_prefix _ _
  exact (List.prefix_of_prefix_length_le isPrefix.start start isPrefix.length_le).eq_of_length
    (le_antisymm isPrefix.length_le long)

theorem hexPrefix_paired (all : ∀ c ∈ paired chars, c ∈ hexDigits) :
    LongestHexPrefix chars (paired chars) where
  start := List.take_prefix _ _
  even := by
    rw [length_paired]
    exact even_two_mul _
  digits := all
  longest _ other := other.length_le

/-- There is a longest start. -/
theorem exists_longestHexPrefix (chars : List Char) : ∃ p, LongestHexPrefix chars p := by
  have bounded : ∀ n, (∃ p, HexPrefix chars p ∧ p.length = n) → n ≤ chars.length := by
    rintro n ⟨p, isPrefix, rfl⟩
    exact isPrefix.start.length_le
  have some_ : ∃ n, ∃ p, HexPrefix chars p ∧ p.length = n :=
    ⟨0, [], ⟨List.nil_prefix, ⟨0, rfl⟩, List.forall_mem_nil _⟩, rfl⟩
  classical
  obtain ⟨p, isPrefix, length⟩ := Nat.findGreatest_spec (P := fun n => ∃ p, HexPrefix chars p ∧
    p.length = n) (bounded _ some_.choose_spec) some_.choose_spec
  refine ⟨p, isPrefix, fun q other => ?_⟩
  rw [length]
  exact Nat.le_findGreatest other.start.length_le ⟨q, other, rfl⟩

/-- A digit has a value, and the value is written as its lower-case form. -/
structure IsDigit (c : Char) (value : ℕ) : Prop where
  read : digitValue (byteOfChar c) = some value
  written : charOfByte (hexDigit (UInt8.ofNat value)) = c.toLower
  small : value < 16
  noSpace : isSpace (byteOfChar c) = false
  noSign : byteOfChar c ≠ 43 ∧ byteOfChar c ≠ 45

theorem exists_isDigit {c : Char} (digit : c ∈ hexDigits) : ∃ value, IsDigit c value := by
  have all : hexDigits.all fun c =>
      decide (digitValue (byteOfChar c) = some ((digitValue (byteOfChar c)).getD 0) ∧
        charOfByte (hexDigit (UInt8.ofNat ((digitValue (byteOfChar c)).getD 0))) = c.toLower ∧
        (digitValue (byteOfChar c)).getD 0 < 16 ∧ isSpace (byteOfChar c) = false ∧
        byteOfChar c ≠ 43 ∧ byteOfChar c ≠ 45) := by
    decide +kernel
  obtain ⟨read, written, small, noSpace, noSign⟩ :=
    of_decide_eq_true (List.all_eq_true.1 all c digit)
  exact ⟨_, read, written, small, noSpace, noSign⟩

/-- A pair of digits is read as the byte that is written as its lower-case form. -/
theorem hexPair_strtoul {a b : Char} (first : a ∈ hexDigits) (second : b ∈ hexDigits) :
    hexPair (strtoul [byteOfChar a, byteOfChar b]) = [a.toLower, b.toLower] := by
  obtain ⟨v, high⟩ := exists_isDigit first
  obtain ⟨w, low⟩ := exists_isDigit second
  have skipped : [byteOfChar a, byteOfChar b].dropWhile isSpace =
      [byteOfChar a, byteOfChar b] := List.dropWhile_cons_of_neg (by simp [high.noSpace])
  have value : strtoul [byteOfChar a, byteOfChar b] = UInt8.ofNat (v * 16 + w) := by
    have digits : readDigits 0 (skipBase [byteOfChar a, byteOfChar b]) = v * 16 + w := by
      simp [skipBase, readDigits, high.read, low.read]
    unfold strtoul
    rw [skipped]
    split
    · rename_i same
      exact absurd (List.cons.inj same).1 high.noSign.1
    · rename_i same
      exact absurd (List.cons.inj same).1 high.noSign.2
    · rw [digits]
  have small := high.small
  have small' := low.small
  have upper : UInt8.ofNat (v * 16 + w) / 16 = UInt8.ofNat v := by
    rw [← UInt8.toNat_inj, UInt8.toNat_div, UInt8.toNat_ofNat', UInt8.toNat_ofNat']
    change (v * 16 + w) % 256 / 16 = v % 256
    omega
  have lower : UInt8.ofNat (v * 16 + w) % 16 = UInt8.ofNat w := by
    rw [← UInt8.toNat_inj, UInt8.toNat_mod, UInt8.toNat_ofNat', UInt8.toNat_ofNat']
    change (v * 16 + w) % 256 % 16 = w % 256
    omega
  rw [value, hexPair, upper, lower, high.written, low.written]

theorem length_decodeHex (bytes : List UInt8) : (decodeHex bytes).length = bytes.length / 2 := by
  fun_induction decodeHex bytes with
  | case1 first second rest ih =>
    rw [List.length_cons, ih, List.length_cons, List.length_cons]
    omega
  | case2 bytes short =>
    rcases bytes with _ | ⟨a, _ | ⟨b, rest⟩⟩
    · rfl
    · simp
    · exact absurd rfl (short a b rest)

theorem paired_cons (a b : Char) (rest : List Char) :
    paired (a :: b :: rest) = a :: b :: paired rest := by
  have half : 2 * ((a :: b :: rest).length / 2) = 2 * (rest.length / 2) + 1 + 1 := by
    rw [List.length_cons, List.length_cons]
    omega
  rw [paired, half, List.take_succ_cons, List.take_succ_cons, ← paired]

/-- Where all pairs are digits, they come back in lower case. -/
theorem hexText_decodeHex (all : ∀ c ∈ paired chars, c ∈ hexDigits) :
    (hexText (decodeHex (chars.map byteOfChar))).toList = (paired chars).map Char.toLower := by
  rw [hexText, String.toList_ofList]
  induction chars using List.twoStepInduction with
  | nil => rfl
  | singleton a => simp [paired, decodeHex]
  | cons_cons a b rest ih _ =>
    rw [paired_cons] at all
    simp only [List.forall_mem_cons] at all
    obtain ⟨first, second, others⟩ := all
    rw [List.map_cons, List.map_cons, decodeHex, List.flatMap_cons, hexPair_strtoul first second,
      ih others, paired_cons]
    rfl

theorem length_le_utf16Size (chars : List Char) : chars.length ≤ (chars.map utf16Size).sum := by
  induction chars with
  | nil => exact le_rfl
  | cons c chars ih =>
    have positive : 1 ≤ utf16Size c := by
      rw [utf16Size]
      split <;> decide
    rw [List.length_cons, List.map_cons, List.sum_cons]
    omega

/-- What is read of an ASCII text, and what is written of that. -/
theorem shown_of_ascii {s : JSString}
    (ascii : ∀ c ∈ s.text.toList, c.toNat < 128 ∧ c ≠ '\x00') (decoder : Decoder) :
    bufferToString decoder (.ofBytes (decodeHex (toCString s.text))) (some "hex") none none =
      some (hexText (decodeHex (s.text.toList.map byteOfChar))) := by
  have bytes : toCString s.text = s.text.toList.map byteOfChar := by
    have noNul : '\x00' ∉ s.text.toList := fun member => (ascii _ member).2 rfl
    rw [toCString_eq_utf8_iff.2 noNul, ← utf8_of_ascii fun c member => (ascii c member).1,
      String.ofList_toList]
  have small : (decodeHex (s.text.toList.map byteOfChar)).length < 2 ^ 31 := by
    have size := length_le_utf16Size s.text.toList
    have bound := s.length_lt
    rw [length_decodeHex, List.length_map]
    omega
  rw [bufferToString_hex, BufferObject.ofBytes_bytes, bytes, shown_of_small small]

/-- Nothing is invented exactly when every character is a digit, but for an odd one at the end. -/
theorem inventsNoBytes_iff (decoder : Decoder) (alloc : Allocator) (s : JSString)
    (ascii : ∀ c ∈ s.text.toList, c.toNat < 128 ∧ c ≠ '\x00') :
    InventsNoBytes decoder alloc s.text ↔ ∀ c ∈ paired s.text.toList, c ∈ hexDigits := by
  have shown_eq := shown_of_ascii ascii decoder
  constructor
  · rintro ⟨made, shown, p, read, written, longest, same⟩
    rw [bufferFrom_hex] at read
    cases read
    rw [shown_eq, Option.some_inj] at written
    have lengths := congrArg List.length same
    rw [← written, length_hexText, length_decodeHex, List.length_map, List.length_map] at lengths
    have whole := longest.toHexPrefix.eq_paired (by rw [length_paired, lengths])
    rw [← whole]
    exact longest.digits
  · intro all
    exact ⟨_, _, _, bufferFrom_hex _, shown_eq, hexPrefix_paired all, hexText_decodeHex all⟩

/-- Two digits and one that is left out. -/
def threeDigits : JSString := ⟨"aF0", by decide⟩

theorem inventsNoBytes_threeDigits : InventsNoBytes .lossy .zeros threeDigits.text :=
  (inventsNoBytes_iff _ _ _ (by simp [threeDigits])).2 (by
    simp [threeDigits, paired, hexDigits, lowerDigits])

/-- Two other characters are read as a zero. -/
theorem not_inventsNoBytes_zz : ¬InventsNoBytes .lossy .zeros "zz" ∧
    bufferToString .lossy (.ofBytes [0]) (some "hex") none none = some "00" := by
  have zeros : bufferToString .lossy (.ofBytes [0]) (some "hex") none none = some "00" := by
    rw [bufferToString_hex]
    decide
  refine ⟨?_, zeros⟩
  rintro ⟨made, shown, p, read, written, longest, same⟩
  have bytes : decodeHex (toCString "zz") = [0] := by decide
  rw [bufferFrom_hex, bytes] at read
  cases read
  rw [zeros, Option.some_inj] at written
  have lengths := congrArg List.length same
  rw [← written, List.length_map] at lengths
  have whole := longest.toHexPrefix.eq_paired (lengths ▸ by decide)
  have digit : 'z' ∈ hexDigits := longest.digits 'z' (whole ▸ by decide)
  revert digit
  decide

end Strings

end ProtoJS.Buffer
