import ProtoJS.Strings.CString

/-! # Buffer encodings

The decoders and encoders of `BufferModule.cpp`. The constructor, `indexOf` and `toString` carry
their own copies; `decodeStringHelper` and `encodeStringHelper` are two more. A `std::string` is
its bytes, and an encoding is compared by `strcmp`.
-/

namespace ProtoJS.Buffer

section Hex

/-- The value of a digit of base sixteen. -/
def digitValue (byte : UInt8) : Option ℕ :=
  if 48 ≤ byte ∧ byte ≤ 57 then some (byte.toNat - 48)
  else if 97 ≤ byte ∧ byte ≤ 102 then some (byte.toNat - 87)
  else if 65 ≤ byte ∧ byte ≤ 70 then some (byte.toNat - 55)
  else none

/-- The digits at the front, read on from what has been read. -/
def readDigits (value : ℕ) : List UInt8 → ℕ
  | [] => value
  | byte :: rest =>
    match digitValue byte with
    | some digit => readDigits (value * 16 + digit) rest
    | none => value

def isSpace (byte : UInt8) : Bool := byte == 32 || (9 ≤ byte && byte ≤ 13)

/-- `0x` counts as a mark of the base only in front of a digit. -/
def skipBase : List UInt8 → List UInt8
  | 48 :: x :: digit :: rest =>
    if (x = 120 ∨ x = 88) ∧ (digitValue digit).isSome then digit :: rest
    else 48 :: x :: digit :: rest
  | text => text

/-- The low byte of `strtoul(text, nullptr, 16)`: spaces, a sign, a mark of the base, digits. -/
def strtoul (text : List UInt8) : UInt8 :=
  match text.dropWhile isSpace with
  | 43 :: rest => UInt8.ofNat (readDigits 0 (skipBase rest))
  | 45 :: rest => 0 - UInt8.ofNat (readDigits 0 (skipBase rest))
  | rest => UInt8.ofNat (readDigits 0 (skipBase rest))

/-- Two characters for each byte; an odd one at the end is dropped. -/
def decodeHex : List UInt8 → List UInt8
  | first :: second :: rest => strtoul [first, second] :: decodeHex rest
  | _ => []

def hexDigit (value : UInt8) : UInt8 := if value < 10 then 48 + value else 87 + value

def encodeHex (bytes : List UInt8) : List UInt8 :=
  bytes.flatMap fun byte => [hexDigit (byte / 16), hexDigit (byte % 16)]

end Hex

section Base64

def base64Chars : List UInt8 :=
  "ABCDEFGHIJKLMNOPQRSTUVWXYZabcdefghijklmnopqrstuvwxyz0123456789+/".toList.map Char.toUInt8

/-- `strchr(base64_chars, byte)`, which also finds the zero byte at the end. -/
def base64Index (byte : UInt8) : Option ℕ :=
  if byte = 0 then some base64Chars.length else base64Chars.findIdx? (· == byte)

/-- Up to four characters into one number; what is no base64 character is passed over. -/
def base64Value (block : List UInt8) : UInt32 :=
  block.foldl (fun val byte =>
    match base64Index byte with
    | some index => (val <<< 6) ||| UInt32.ofNat index
    | none => val) 0

/-- One turn of the decoding loop. -/
def decodeBase64Block (block : List UInt8) : List UInt8 :=
  let val := base64Value block
  [(val >>> 16).toUInt8] ++
    (if (block[2]?).any (· ≠ 61) then [(val >>> 8).toUInt8] else []) ++
    if (block[3]?).any (· ≠ 61) then [val.toUInt8] else []

def decodeBase64 : List UInt8 → List UInt8
  | [] => []
  | a :: b :: c :: d :: rest => decodeBase64Block [a, b, c, d] ++ decodeBase64 rest
  | block => decodeBase64Block block

/-- `base64_chars[(val >> shift) & 63]`. -/
def base64Char (val : UInt32) (shift : UInt32) : UInt8 :=
  base64Chars.getD ((val >>> shift) &&& 63).toNat 0

/-- One turn of the encoding loop. -/
def encodeBase64Block (a : UInt8) (b c : Option UInt8) : List UInt8 :=
  let val := a.toUInt32 <<< 16 ||| (b.getD 0).toUInt32 <<< 8 ||| (c.getD 0).toUInt32
  [base64Char val 18, base64Char val 12, if b.isSome then base64Char val 6 else 61,
    if c.isSome then base64Char val 0 else 61]

def encodeBase64 : List UInt8 → List UInt8
  | [] => []
  | [a] => encodeBase64Block a none none
  | [a, b] => encodeBase64Block a (some b) none
  | a :: b :: c :: rest => encodeBase64Block a (some b) (some c) ++ encodeBase64 rest

end Base64

section Helpers

/-- What the constructor does with a string. -/
def decodeInConstructor (encoding : String) (str : List UInt8) : List UInt8 :=
  if encoding = "utf8" ∨ encoding = "utf-8" then str
  else if encoding = "hex" then decodeHex str
  else str

/-- What `indexOf` does with a string. -/
def decodeInIndexOf (encoding : String) (str : List UInt8) : List UInt8 :=
  if encoding = "utf8" ∨ encoding = "utf-8" then str
  else if encoding = "hex" then decodeHex str
  else str

/-- What `toString` does with the bytes of its range. -/
def encodeInToString (encoding : String) (bytes : List UInt8) : List UInt8 :=
  if encoding = "utf8" ∨ encoding = "utf-8" then bytes
  else if encoding = "hex" then encodeHex bytes
  else bytes

def decodeStringHelper (encoding : String) (str : List UInt8) : List UInt8 :=
  if encoding = "utf8" ∨ encoding = "utf-8" then str
  else if encoding = "hex" then decodeHex str
  else if encoding = "base64" then decodeBase64 str
  else if encoding = "ascii" then str
  else if encoding = "latin1" then str
  else str

def encodeStringHelper (encoding : String) (data : List UInt8) : List UInt8 :=
  if encoding = "utf8" ∨ encoding = "utf-8" then data
  else if encoding = "hex" then encodeHex data
  else if encoding = "base64" then encodeBase64 data
  else if encoding = "ascii" then data.map (· &&& 0x7F)
  else if encoding = "latin1" then data
  else data

end Helpers

section Base64

/-- No block gives more than three bytes. -/
theorem length_decodeBase64Block_le (block : List UInt8) :
    (decodeBase64Block block).length ≤ 3 := by
  unfold decodeBase64Block
  split <;> split <;> simp

theorem length_decodeBase64_le (str : List UInt8) : (decodeBase64 str).length ≤ str.length := by
  fun_induction decodeBase64 str with
  | case1 => exact le_rfl
  | case2 a b c d rest ih =>
    have block := length_decodeBase64Block_le [a, b, c, d]
    simp only [List.length_append, List.length_cons]
    omega
  | case3 block nonempty short =>
    rcases block with _ | ⟨a, _ | ⟨b, _ | ⟨c, _ | ⟨d, rest⟩⟩⟩⟩
    · exact absurd rfl nonempty
    · simp [decodeBase64Block]
    · simp [decodeBase64Block]
    · simp only [decodeBase64Block]
      split <;> simp
    · exact absurd rfl (short a b c d rest)

/-- Decoding shortens every text of two characters or more. -/
theorem length_decodeBase64_lt {str : List UInt8} (long : 2 ≤ str.length) :
    (decodeBase64 str).length < str.length := by
  rcases str with _ | ⟨a, _ | ⟨b, _ | ⟨c, _ | ⟨d, rest⟩⟩⟩⟩
  · simp at long
  · simp at long
  · simp [decodeBase64, decodeBase64Block]
  · simp only [decodeBase64, decodeBase64Block]
    split <;> simp
  · have block := length_decodeBase64Block_le [a, b, c, d]
    have remaining := length_decodeBase64_le rest
    simp only [decodeBase64, List.length_append, List.length_cons]
    omega

theorem base64Index_le {byte : UInt8} {index : ℕ} (found : base64Index byte = some index) :
    index ≤ 64 := by
  have size : base64Chars.length = 64 := by decide
  unfold base64Index at found
  split at found
  · cases found
    omega
  · have below := (List.findIdx?_eq_some_iff_findIdx_eq.mp found).1
    omega

/-- One character does not reach the byte that is taken from the value. -/
theorem decodeBase64_singleton (byte : UInt8) : decodeBase64 [byte] = [0] := by
  have shifted : ∀ index ≤ 64,
      (((0 : UInt32) <<< 6 ||| UInt32.ofNat index) >>> 16).toUInt8 = 0 := by
    decide
  rcases found : base64Index byte with _ | index
  · simp [decodeBase64, decodeBase64Block, base64Value, found]
  · have value := shifted index (base64Index_le found)
    simp only [decodeBase64, decodeBase64Block, base64Value, List.foldl_cons, List.foldl_nil, found]
    rw [value]
    rfl

/-- Without a zero byte, nothing but the empty text is its own decoding. -/
theorem decodeBase64_eq_self_iff {str : List UInt8} (nonzero : 0 ∉ str) :
    decodeBase64 str = str ↔ str = [] := by
  refine ⟨?_, fun empty => empty ▸ rfl⟩
  intro same
  rcases str with _ | ⟨a, _ | ⟨b, rest⟩⟩
  · rfl
  · rw [decodeBase64_singleton] at same
    cases same
    exact absurd (List.mem_singleton_self 0) nonzero
  · have shorter : (decodeBase64 (a :: b :: rest)).length < (a :: b :: rest).length :=
      length_decodeBase64_lt (by simp)
    rw [same] at shorter
    exact absurd shorter (lt_irrefl _)

theorem length_encodeBase64_le (bytes : List UInt8) :
    bytes.length ≤ (encodeBase64 bytes).length := by
  fun_induction encodeBase64 bytes with
  | case1 => exact le_rfl
  | case2 a => simp [encodeBase64Block]
  | case3 a b => simp [encodeBase64Block]
  | case4 a b c rest ih =>
    simp only [encodeBase64Block, List.length_append, List.length_cons, List.length_nil]
    omega

/-- Encoding lengthens everything but the empty sequence. -/
theorem encodeBase64_eq_self_iff {bytes : List UInt8} :
    encodeBase64 bytes = bytes ↔ bytes = [] := by
  refine ⟨?_, fun empty => empty ▸ rfl⟩
  intro same
  have lengths := congrArg List.length same
  rcases bytes with _ | ⟨a, _ | ⟨b, _ | ⟨c, rest⟩⟩⟩
  · rfl
  · simp [encodeBase64, encodeBase64Block] at lengths
  · simp [encodeBase64, encodeBase64Block] at lengths
  · have remaining := length_encodeBase64_le rest
    simp only [encodeBase64, encodeBase64Block, List.length_append, List.length_cons,
      List.length_nil] at lengths
    omega

end Base64

section Agreement

variable {encoding : String} {str bytes : List UInt8}

theorem and_mask_eq_self_iff (byte : UInt8) : byte &&& 0x7F = byte ↔ byte < 128 := by
  have low : (byte &&& 0x7F).toNat = byte.toNat % 2 ^ 7 := by
    rw [UInt8.toNat_and]
    exact Nat.and_two_pow_sub_one_eq_mod byte.toNat 7
  rw [← UInt8.toNat_inj, low, UInt8.lt_iff_toNat_lt]
  exact Nat.mod_eq_iff_lt (by omega)

theorem map_mask_eq_self_iff : bytes.map (· &&& 0x7F) = bytes ↔ ∀ byte ∈ bytes, byte < 128 := by
  calc
    bytes.map (· &&& 0x7F) = bytes ↔ bytes.map (· &&& 0x7F) = bytes.map id := by rw [List.map_id]
    _ ↔ ∀ byte ∈ bytes, byte &&& 0x7F = byte := List.map_inj_left
    _ ↔ ∀ byte ∈ bytes, byte < 128 := by simp only [and_mask_eq_self_iff]

/-- The copies of the decoder have no base64. -/
theorem decodeInConstructor_eq_iff (nonzero : 0 ∉ str) :
    decodeInConstructor encoding str = decodeStringHelper encoding str ↔
      (encoding = "base64" → str = []) := by
  unfold decodeInConstructor decodeStringHelper
  rcases eq_or_ne encoding "base64" with rfl | other
  · simp only [String.reduceEq, or_self, if_false, if_true, forall_const]
    rw [eq_comm, decodeBase64_eq_self_iff nonzero]
  · simp only [other, if_false, ite_self, false_imp_iff]

theorem decodeInIndexOf_eq_decodeInConstructor :
    decodeInIndexOf encoding str = decodeInConstructor encoding str :=
  rfl

/-- The copy of the encoder has neither base64 nor ascii. -/
theorem encodeInToString_eq_iff :
    encodeInToString encoding bytes = encodeStringHelper encoding bytes ↔
      (encoding = "base64" → bytes = []) ∧ (encoding = "ascii" → ∀ byte ∈ bytes, byte < 128) := by
  unfold encodeInToString encodeStringHelper
  rcases eq_or_ne encoding "base64" with rfl | notBase64
  · simp only [String.reduceEq, or_self, if_false, if_true, forall_const, false_imp_iff, and_true]
    rw [eq_comm, encodeBase64_eq_self_iff]
  · rcases eq_or_ne encoding "ascii" with rfl | notAscii
    · simp only [String.reduceEq, or_self, if_false, if_true, forall_const, false_imp_iff, true_and]
      rw [eq_comm, map_mask_eq_self_iff]
    · simp only [notBase64, notAscii, if_false, ite_self, false_imp_iff, and_self]

end Agreement

/-- An encoding has one meaning: every copy of the codecs does what the helpers do. -/
def CopiesAgree (encoding text : String) (bytes : List UInt8) : Prop :=
  decodeInConstructor encoding (Strings.toCString text) =
      decodeStringHelper encoding (Strings.toCString text) ∧
    decodeInIndexOf encoding (Strings.toCString text) =
      decodeStringHelper encoding (Strings.toCString text) ∧
    encodeInToString encoding bytes = encodeStringHelper encoding bytes

instance (encoding text : String) (bytes : List UInt8) :
    Decidable (CopiesAgree encoding text bytes) :=
  inferInstanceAs (Decidable (_ ∧ _))

/-- The copies agree exactly when base64 is asked for nothing and ascii for bytes of seven bits. -/
theorem copiesAgree_iff (encoding text : String) (bytes : List UInt8) :
    CopiesAgree encoding text bytes ↔
      (encoding = "base64" → Strings.toCString text = [] ∧ bytes = []) ∧
        (encoding = "ascii" → ∀ byte ∈ bytes, byte < 128) := by
  have nonzero : 0 ∉ Strings.toCString text := Strings.zero_notMem_beforeZero _
  rw [CopiesAgree, decodeInIndexOf_eq_decodeInConstructor, decodeInConstructor_eq_iff nonzero,
    encodeInToString_eq_iff]
  tauto

/-- `Buffer.from("aGVs", "base64")` holds the four characters, not the three bytes they encode. -/
theorem not_copiesAgree_base64 : ¬CopiesAgree "base64" "aGVs" [] := by
  decide

end ProtoJS.Buffer
