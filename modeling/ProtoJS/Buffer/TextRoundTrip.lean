import ProtoJS.Buffer.BufferSlices

/-! # Text and bytes through buffers

`toString` gives the bytes of its range to `JS_NewString` as a C string, and the network and
crypto modules read a buffer back from that string. Nothing behind a zero byte arrives, invalid
UTF-8 arrives replaced, and a size that is no `int` is cut.
-/

namespace ProtoJS.Buffer

open Words Bytes Strings

section Whole

variable {decoder : Decoder} {buffer : BufferObject} {size : ℕ}

theorem toInt_le (size : ℕ) : toInt size ≤ size := signed_le (Int.natCast_nonneg size)

/-- What `toString()` shows: the bytes up to the size as an `int`. -/
def shown (bytes : List UInt8) : List UInt8 := bytes.take (toInt bytes.length).toNat

theorem shown_of_small {bytes : List UInt8} (small : bytes.length < 2 ^ 31) :
    shown bytes = bytes := by
  rw [shown, toInt_size small, Int.toNat_natCast, List.take_length]

/-- Where a size is no `int`, less than a third is shown. -/
theorem length_shown_lt {bytes : List UInt8} (large : 2 ^ 31 ≤ bytes.length) :
    3 * (shown bytes).length < bytes.length := by
  have high : toInt bytes.length < 2 ^ 31 := @signed_lt 31 bytes.length
  have wrapped : toInt bytes.length ≤ bytes.length - 2 ^ 32 ∨ toInt bytes.length < 0 := by
    rcases lt_or_ge bytes.length (2 ^ 32) with below | above
    · right
      rw [← toInt_sub_two_pow, toInt_eq_self (by omega) (by omega)]
      omega
    · left
      rw [← toInt_sub_two_pow]
      exact signed_le (by omega)
  rw [shown, List.length_take]
  omega

theorem toStringRange_none (size : ℕ) :
    toStringRange size none none = ⟨min 0 (toInt size), (toInt size).toNat⟩ := by
  have low : -2 ^ 31 ≤ toInt size := @le_signed 31 size
  have high : toInt size < 2 ^ 31 := @signed_lt 31 size
  unfold toStringRange
  simp only [intArgument, lt_irrefl, if_false]
  generalize toInt size = stop at low high
  rcases lt_or_ge stop 0 with negative | nonneg
  · rw [if_pos negative, sub_self, min_eq_right negative.le, Int.toNat_of_nonpos negative.le]
    rfl
  · have length := @toUnsignedLong_of_nonneg stop nonneg (by omega)
    rw [if_neg (not_lt_of_ge nonneg), sub_zero, min_eq_left nonneg]
    congr 1
    omega

/-- The whole of a buffer in an encoding. -/
theorem bufferToString_shown (encoding : Option String) :
    bufferToString decoder buffer encoding none none = some
      (decoder.newString (encodeInToString (encodingName encoding) (shown buffer.bytes))) := by
  have le := toInt_le buffer.bytes.length
  have inside : (⟨min 0 (toInt buffer.bytes.length), (toInt buffer.bytes.length).toNat⟩ :
      ByteRange).Inside buffer.bytes.length := by
    rw [ByteRange.inside_iff]
    simp only
    omega
  have start : (min 0 (toInt buffer.bytes.length)).toNat = 0 := by omega
  rw [bufferToString, toStringRange_none, read_of_inside inside]
  simp only [start, List.drop_zero, Option.map_some, shown]

theorem bufferToString_whole :
    bufferToString decoder buffer none none none =
      some (decoder.newString (shown buffer.bytes)) := by
  rw [bufferToString_shown]
  simp only [encodingName, encodeInToString, true_or, if_true]

end Whole

section Text

variable {decoder : Decoder} {alloc : Allocator} {text : String}

/-- A text comes back from a buffer, whose length is that of its UTF-8 encoding. -/
def RoundTrips (decoder : Decoder) (alloc : Allocator) (text : String) : Prop :=
  ∃ buffer, bufferFrom alloc (some (.string text none)) = .ok buffer ∧
    bufferToString decoder buffer none none none = some text ∧
    buffer.length = (utf8 text).length

theorem bufferFrom_string :
    bufferFrom alloc (some (.string text none)) = .ok (.ofBytes (toCString text)) :=
  rfl

theorem length_toCString_lt (nul : '\x00' ∈ text.toList) :
    (toCString text).length < (utf8 text).length := by
  have proper : toCString text ≠ utf8 text := fun same => toCString_eq_utf8_iff.mp same nul
  have initial : toCString text <+: utf8 text := List.takeWhile_prefix _
  exact lt_of_le_of_ne initial.length_le fun same => proper (initial.eq_of_length same)

/-- What is shown of a buffer of 2^31 bytes or more is too little for all of them. -/
theorem length_newString_shown_lt (decoder : Decoder) {bytes : List UInt8}
    (large : 2 ^ 31 ≤ bytes.length) :
    (utf8 (decoder.newString (shown bytes))).length < bytes.length :=
  (decoder.length_newString_le _).trans_lt (length_shown_lt large)

/-- A text makes the round trip exactly when it has no U+0000 and its encoding is shorter than
2^31 bytes. -/
theorem roundTrips_iff (decoder : Decoder) (alloc : Allocator) (text : String) :
    RoundTrips decoder alloc text ↔ '\x00' ∉ text.toList ∧ (utf8 text).length < 2 ^ 31 := by
  constructor
  · rintro ⟨buffer, made, returned, length⟩
    rw [bufferFrom_string] at made
    cases made
    rw [bufferToString_whole, Option.some_inj, BufferObject.ofBytes_bytes] at returned
    have whole : '\x00' ∉ text.toList := by
      intro nul
      have shorter := length_toCString_lt nul
      have le := BufferObject.ofBytes_length_le (toCString text)
      omega
    refine ⟨whole, ?_⟩
    by_contra large
    have lost := @length_newString_shown_lt decoder (utf8 text) (by omega)
    rw [toCString_eq_utf8_iff.mpr whole] at returned
    rw [returned] at lost
    exact absurd lost (lt_irrefl _)
  · rintro ⟨whole, small⟩
    have same : toCString text = utf8 text := toCString_eq_utf8_iff.mpr whole
    have nothingCut : beforeNul text = text := beforeNul_eq_self_iff.2 whole
    refine ⟨_, bufferFrom_string, ?_, ?_⟩
    · rw [bufferToString_whole, BufferObject.ofBytes_bytes, same, shown_of_small small,
        decoder.newString_utf8, nothingCut]
    · rw [same, BufferObject.ofBytes_length (by omega)]

/-- Characters of one, two, three and four bytes. -/
theorem roundTrips_four : RoundTrips .lossy .zeros "aé€𝄞" :=
  (roundTrips_iff _ _ _).mpr ⟨by decide, by decide⟩

/-- A zero in the middle of a text ends it. -/
theorem not_roundTrips_nul : ¬RoundTrips .lossy .zeros "a\x00b" := by
  rintro ⟨buffer, made, -, length⟩
  rw [bufferFrom_string] at made
  cases made
  revert length
  decide

end Text

section Sinks

/-- What the network and crypto modules are given. -/
inductive DataValue where
  | buffer (value : BufferObject)
  | string (value : String)
  | other

/-- The bytes of a value: a buffer is converted to a string and back. -/
def dataOf (decoder : Decoder) : DataValue → Option (List UInt8)
  | .buffer value => (bufferToString decoder value none none none).map toCString
  | .string value => some (toCString value)
  | .other => some []

/-- The encoding is not looked at. -/
def NetModule.getDataFromJSValue (decoder : Decoder) (value : DataValue) (_encoding : String) :
    Option (List UInt8) :=
  dataOf decoder value

def DgramModule.getDataFromJSValue (decoder : Decoder) (value : DataValue) :
    Option (List UInt8) :=
  dataOf decoder value

def CryptoModule.getBufferData (decoder : Decoder) (value : DataValue) : Option (List UInt8) :=
  dataOf decoder value

variable {decoder : Decoder} {bytes : List UInt8}

/-- The bytes are the encoding of some text. -/
def ValidUtf8 (bytes : List UInt8) : Prop := ∃ text, utf8 text = bytes

theorem dataOf_buffer_eq_iff (decoder : Decoder) (buffer : BufferObject) :
    dataOf decoder (.buffer buffer) = some buffer.bytes ↔
      buffer.bytes.length < 2 ^ 31 ∧ 0 ∉ buffer.bytes ∧ ValidUtf8 buffer.bytes := by
  rw [dataOf, bufferToString_whole, Option.map_some, Option.some_inj]
  rcases lt_or_ge buffer.bytes.length (2 ^ 31) with small | large
  · rw [shown_of_small small, Decoder.toCString_newString_eq_iff]
    exact ⟨fun survives => ⟨small, survives⟩, And.right⟩
  · refine iff_of_false ?_ fun condition => absurd condition.1 (not_lt_of_ge large)
    intro same
    have lost := length_newString_shown_lt decoder large
    have cut := length_beforeZero_le (utf8 (decoder.newString (shown buffer.bytes)))
    rw [← toCString, same] at cut
    omega

/-- Every sink receives the bytes of the buffer. -/
def ReachesSinks (decoder : Decoder) (buffer : BufferObject) : Prop :=
  (∀ encoding, NetModule.getDataFromJSValue decoder (.buffer buffer) encoding =
      some buffer.bytes) ∧
    DgramModule.getDataFromJSValue decoder (.buffer buffer) = some buffer.bytes ∧
    CryptoModule.getBufferData decoder (.buffer buffer) = some buffer.bytes

/-- A buffer reaches its sinks unchanged exactly when it holds a text without U+0000 of less than
2^31 bytes. -/
theorem reachesSinks_iff (decoder : Decoder) (buffer : BufferObject) :
    ReachesSinks decoder buffer ↔
      buffer.bytes.length < 2 ^ 31 ∧ 0 ∉ buffer.bytes ∧ ValidUtf8 buffer.bytes := by
  rw [← dataOf_buffer_eq_iff]
  constructor
  · rintro ⟨-, dgram, -⟩
    exact dgram
  · intro received
    exact ⟨fun _ => received, received, received⟩

theorem reachesSinks_text : ReachesSinks .lossy (.ofBytes (utf8 "aé€𝄞")) :=
  (reachesSinks_iff _ _).mpr ⟨by decide, by decide, ⟨_, rfl⟩⟩

/-- A zero byte ends what is sent. -/
theorem not_reachesSinks_zero : ¬ReachesSinks .lossy (.ofBytes [97, 0, 98]) := by
  rintro ⟨-, dgram, -⟩
  have sent : dataOf .lossy (.buffer (.ofBytes [97, 0, 98])) = some [97, 0, 98] := dgram
  have nonzero := ((dataOf_buffer_eq_iff _ _).mp sent).2.1
  exact absurd nonzero (by decide)

end Sinks

end ProtoJS.Buffer
