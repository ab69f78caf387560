import ProtoJS.Buffer.BufferModule

/-! # The bounds of the buffer methods

Below 2^31 a size survives its conversion to `int`, and the clamps of `toString`, `slice` and
`fill` keep every byte they touch inside. `copy` subtracts the position in the target from its
size as unsigned numbers, so a position behind the end leaves it room for everything.
-/

namespace ProtoJS.Buffer

open Words Bytes Strings

section Conversions

variable {value : ℤ} {size : ℕ}

theorem toInt_eq_self (low : -2 ^ 31 ≤ value) (high : value < 2 ^ 31) : toInt value = value :=
  @signed_eq_self 31 value low high

theorem toInt_size (small : size < 2 ^ 31) : toInt size = size :=
  toInt_eq_self (by omega) (by exact_mod_cast small)

theorem toInt_sub_two_pow : toInt (value - 2 ^ 32) = toInt value :=
  signed_sub_two_pow

theorem toUnsignedLong_of_nonneg (nonneg : 0 ≤ value) (high : value < 2 ^ 64) :
    (toUnsignedLong value : ℤ) = value := by
  obtain ⟨value, rfl⟩ := Int.eq_ofNat_of_zero_le nonneg
  rw [toUnsignedLong, @unsigned_eq_self 64 value (by exact_mod_cast high)]

theorem addSize_of_neg (low : -2 ^ 31 ≤ value) (negative : value < 0) (small : size < 2 ^ 31) :
    addSize value size = value + size := by
  have wrapped : addSize value size = toInt (value + size) :=
    @signed_unsigned_add 32 value 64 (by norm_num) size
  rw [wrapped, toInt_eq_self (by omega) (by omega)]

theorem intArgument_mem (argument : Option Int32) (fallback : ℤ) (low : -2 ^ 31 ≤ fallback)
    (high : fallback < 2 ^ 31) :
    -2 ^ 31 ≤ intArgument argument fallback ∧ intArgument argument fallback < 2 ^ 31 := by
  cases argument with
  | none => exact ⟨low, high⟩
  | some value => exact ⟨value.le_toInt, value.toInt_lt⟩

end Conversions

section Clamps

variable {size : ℕ} {first last : Option Int32}

/-- What a clamp leaves has its end behind its start, and both inside unless they are equal. -/
theorem inside_of_clamped {start stop : ℤ} (ordered : start ≤ stop) (low : 0 ≤ start ∨ start = stop)
    (high : stop ≤ size) (bounded : stop - start < 2 ^ 64) :
    (⟨start, toUnsignedLong (stop - start)⟩ : ByteRange).Inside size := by
  have length := toUnsignedLong_of_nonneg (by omega) bounded
  rw [ByteRange.inside_iff]
  simp only
  omega

theorem inside_toStringRange (small : size < 2 ^ 31) :
    (toStringRange size first last).Inside size := by
  have start := intArgument_mem first 0 (by omega) (by omega)
  have stop := intArgument_mem last size (by omega) (by omega)
  unfold toStringRange
  simp only [toInt_size small]
  apply inside_of_clamped
  · split_ifs <;> omega
  · split_ifs <;> omega
  · split_ifs <;> omega
  · split_ifs <;> omega

theorem fillRange_eq_toStringRange : fillRange size first last = toStringRange size first last :=
  rfl

/-- Where a position of `slice` points to: a negative one counts from the end. -/
def fromEnd (size : ℕ) (position : ℤ) : ℤ := if position < 0 then position + size else position

theorem addSize_eq_fromEnd {position : ℤ} (low : -2 ^ 31 ≤ position) (small : size < 2 ^ 31) :
    (if position < 0 then addSize position size else position) = fromEnd size position := by
  unfold fromEnd
  split_ifs with negative
  · exact addSize_of_neg low negative small
  · rfl

/-- The range of `slice` in plain arithmetic. -/
theorem sliceRange_eq (small : size < 2 ^ 31) {start stop : ℤ}
    (start_eq : fromEnd size (intArgument first 0) = start)
    (stop_eq : fromEnd size (intArgument last size) = stop) :
    ∃ count : ℕ, sliceRange size first last = ⟨min (max 0 start) (min stop size), count⟩ ∧
      (count : ℤ) = min stop size - min (max 0 start) (min stop size) := by
  have startBounds := intArgument_mem first 0 (by omega) (by omega)
  have stopBounds := intArgument_mem last size (by omega) (by omega)
  have startHigh : start < 2 ^ 31 := by
    rw [← start_eq, fromEnd]
    split_ifs <;> omega
  have stopLow : -2 ^ 31 ≤ stop := by
    rw [← stop_eq, fromEnd]
    split_ifs <;> omega
  have clampedStart : (if start < 0 then 0 else start) = max 0 start := by
    split_ifs <;> omega
  have clampedStop : (if (size : ℤ) < stop then (size : ℤ) else stop) = min stop size := by
    split_ifs <;> omega
  have ordered : (if min stop size < max 0 start then min stop size else max 0 start) =
      min (max 0 start) (min stop size) := by
    split_ifs <;> omega
  refine ⟨toUnsignedLong (min stop size - min (max 0 start) (min stop size)), ?_, ?_⟩
  · unfold sliceRange
    simp only [toInt_size small, addSize_eq_fromEnd startBounds.1 small,
      addSize_eq_fromEnd stopBounds.1 small, start_eq, stop_eq, clampedStart, clampedStop, ordered]
  · exact toUnsignedLong_of_nonneg (by omega) (by omega)

theorem inside_sliceRange (small : size < 2 ^ 31) : (sliceRange size first last).Inside size := by
  obtain ⟨count, range, length⟩ := @sliceRange_eq size first last small _ _ rfl rfl
  rw [range, ByteRange.inside_iff]
  simp only
  omega

end Clamps

section Copy

/-- The position in the target is no problem: the call returns at once, copies nothing, or starts
inside the target or at its end. -/
def CopyFits (srcSize targetSize : ℕ) (arguments : CopyArguments) : Prop :=
  let targetStart := intArgument arguments.targetStart 0
  let sourceStart := intArgument arguments.sourceStart 0
  let sourceEnd := intArgument arguments.sourceEnd srcSize
  targetStart < 0 ∨ sourceStart < 0 ∨ sourceEnd < 0 ∨ min sourceEnd srcSize ≤ sourceStart ∨
    targetStart ≤ targetSize

variable {srcSize targetSize : ℕ} {arguments : CopyArguments}

/-- The room that `copy` sees behind a position: what is left, or nearly 2^64 when the position
is behind the end. -/
theorem room_eq {position : ℤ} (nonneg : 0 ≤ position) (high : position < 2 ^ 31)
    (small : targetSize < 2 ^ 31) :
    (toUnsignedLong (targetSize - toUnsignedLong position) : ℤ) =
      if position ≤ targetSize then targetSize - position
      else 2 ^ 64 + (targetSize - position) := by
  rw [toUnsignedLong_of_nonneg nonneg (by omega)]
  split_ifs with inside
  · exact toUnsignedLong_of_nonneg (by omega) (by omega)
  · exact @unsigned_of_neg 64 (targetSize - position) (by omega) (by omega)

/-- When no position is negative, `copy` copies what the source has between its clamped positions,
as far as it sees room. -/
theorem copyRanges_of_nonneg (arguments : CopyArguments) (srcSmall : srcSize < 2 ^ 31)
    (targetSmall : targetSize < 2 ^ 31) {targetStart sourceStart sourceEnd : ℤ}
    (targetStart_eq : intArgument arguments.targetStart 0 = targetStart)
    (sourceStart_eq : intArgument arguments.sourceStart 0 = sourceStart)
    (sourceEnd_eq : intArgument arguments.sourceEnd srcSize = sourceEnd)
    (nonneg : 0 ≤ targetStart ∧ 0 ≤ sourceStart ∧ 0 ≤ sourceEnd) :
    ∃ (start : ℤ) (count : ℕ),
      copyRanges srcSize targetSize arguments = (⟨start, count⟩, ⟨targetStart, count⟩) ∧
        start = min sourceStart (min sourceEnd srcSize) ∧
        (count : ℤ) = min (min sourceEnd srcSize - start)
          (if targetStart ≤ targetSize then targetSize - targetStart
            else 2 ^ 64 + (targetSize - targetStart)) := by
  have high := (intArgument_mem arguments.targetStart 0 (by omega) (by omega)).2
  have clampedEnd : (if (srcSize : ℤ) < sourceEnd then (srcSize : ℤ) else sourceEnd) =
      min sourceEnd srcSize := by
    split_ifs <;> omega
  have clampedStart : (if min sourceEnd srcSize <
        (if (srcSize : ℤ) < sourceStart then (srcSize : ℤ) else sourceStart) then
          min sourceEnd srcSize
        else if (srcSize : ℤ) < sourceStart then (srcSize : ℤ) else sourceStart) =
      min sourceStart (min sourceEnd srcSize) := by
    split_ifs <;> omega
  have notReturned : ¬(targetStart < 0 ∨ sourceStart < 0 ∨ sourceEnd < 0) := by omega
  have available := @toUnsignedLong_of_nonneg
    (min sourceEnd srcSize - min sourceStart (min sourceEnd srcSize)) (by omega) (by omega)
  have room := room_eq nonneg.1 (targetStart_eq ▸ high) targetSmall
  refine ⟨min sourceStart (min sourceEnd srcSize),
    min (toUnsignedLong (min sourceEnd srcSize - min sourceStart (min sourceEnd srcSize)))
      (toUnsignedLong (targetSize - toUnsignedLong targetStart)), ?_, rfl, ?_⟩
  · unfold copyRanges
    simp only [toInt_size srcSmall, targetStart_eq, sourceStart_eq, sourceEnd_eq, notReturned,
      if_false, clampedEnd, clampedStart]
  · rw [Nat.cast_min, available, room]

/-- `copy` returns at once for a negative position, and copies otherwise. -/
theorem copyRanges_cases (arguments : CopyArguments) (srcSmall : srcSize < 2 ^ 31)
    (targetSmall : targetSize < 2 ^ 31) {targetStart sourceStart sourceEnd : ℤ}
    (targetStart_eq : intArgument arguments.targetStart 0 = targetStart)
    (sourceStart_eq : intArgument arguments.sourceStart 0 = sourceStart)
    (sourceEnd_eq : intArgument arguments.sourceEnd srcSize = sourceEnd) :
    ((targetStart < 0 ∨ sourceStart < 0 ∨ sourceEnd < 0) ∧
      copyRanges srcSize targetSize arguments = (⟨0, 0⟩, ⟨0, 0⟩)) ∨
    ((0 ≤ targetStart ∧ 0 ≤ sourceStart ∧ 0 ≤ sourceEnd) ∧
      ∃ (start : ℤ) (count : ℕ),
        copyRanges srcSize targetSize arguments = (⟨start, count⟩, ⟨targetStart, count⟩) ∧
          start = min sourceStart (min sourceEnd srcSize) ∧
          (count : ℤ) = min (min sourceEnd srcSize - start)
            (if targetStart ≤ targetSize then targetSize - targetStart
              else 2 ^ 64 + (targetSize - targetStart))) := by
  rcases em (targetStart < 0 ∨ sourceStart < 0 ∨ sourceEnd < 0) with negative | nonneg
  · refine .inl ⟨negative, ?_⟩
    simp only [copyRanges, toInt_size srcSmall, targetStart_eq, sourceStart_eq, sourceEnd_eq,
      negative, if_true]
  · have positions : 0 ≤ targetStart ∧ 0 ≤ sourceStart ∧ 0 ≤ sourceEnd := by omega
    exact .inr ⟨positions, copyRanges_of_nonneg arguments srcSmall targetSmall targetStart_eq
      sourceStart_eq sourceEnd_eq positions⟩

theorem inside_copyRanges_source (srcSmall : srcSize < 2 ^ 31) (targetSmall : targetSize < 2 ^ 31) :
    (copyRanges srcSize targetSize arguments).1.Inside srcSize := by
  rw [ByteRange.inside_iff]
  rcases copyRanges_cases arguments srcSmall targetSmall rfl rfl rfl with ⟨-, ranges⟩ |
    ⟨nonneg, start, count, ranges, start_eq, count_eq⟩
  · rw [ranges]
    exact .inl rfl
  · rw [ranges]
    simp only
    omega

theorem inside_copyRanges_target_iff (srcSmall : srcSize < 2 ^ 31)
    (targetSmall : targetSize < 2 ^ 31) :
    (copyRanges srcSize targetSize arguments).2.Inside targetSize ↔
      CopyFits srcSize targetSize arguments := by
  have high := (intArgument_mem arguments.targetStart 0 (by omega) (by omega)).2
  rw [ByteRange.inside_iff]
  unfold CopyFits
  rcases copyRanges_cases arguments srcSmall targetSmall rfl rfl rfl with ⟨negative, ranges⟩ |
    ⟨nonneg, start, count, ranges, start_eq, count_eq⟩
  · rw [ranges]
    refine iff_of_true (.inl rfl) ?_
    simp only
    omega
  · rw [ranges]
    simp only
    split_ifs at count_eq with inside
    · omega
    · omega

end Copy

section IndexOf

variable {memory : ℤ → UInt8} {pattern : List UInt8} {place : ℤ} {size : ℕ}

theorem matchAt_count_le (memory : ℤ → UInt8) (place : ℤ) (pattern : List UInt8) :
    (matchAt memory place pattern).2 ≤ pattern.length := by
  induction pattern generalizing place with
  | nil => exact le_rfl
  | cons byte rest ih =>
    have remaining := ih (place + 1)
    unfold matchAt
    split
    · simp
    · simpa using remaining

theorem matchAt_count_pos (memory : ℤ → UInt8) (place : ℤ) (nonempty : pattern ≠ []) :
    0 < (matchAt memory place pattern).2 := by
  cases pattern with
  | nil => exact absurd rfl nonempty
  | cons byte rest =>
    unfold matchAt
    split
    · exact one_pos
    · exact Nat.succ_pos _

/-- A match has read the whole pattern. -/
theorem matchAt_count_of_matched (matched : (matchAt memory place pattern).1 = true) :
    (matchAt memory place pattern).2 = pattern.length := by
  induction pattern generalizing place with
  | nil => rfl
  | cons byte rest ih =>
    unfold matchAt at matched ⊢
    split at matched
    · cases matched
    · rename_i same
      rw [if_neg same]
      exact congrArg Nat.succ (ih matched)

theorem searchFrom_succ (turns : ℕ) :
    (searchFrom memory pattern (turns + 1) place).2 =
      ⟨place, (matchAt memory place pattern).2⟩ ::
        if (matchAt memory place pattern).1 then []
        else (searchFrom memory pattern turns (place + 1)).2 := by
  rw [searchFrom]
  rcases matchAt memory place pattern with ⟨matched, count⟩
  cases matched <;> rfl

/-- Reads stay inside as long as the last place leaves room for the pattern. -/
theorem searchFrom_inside {turns : ℕ} (low : 0 ≤ place)
    (room : turns = 0 ∨ place + turns - 1 + pattern.length ≤ size) :
    ∀ range ∈ (searchFrom memory pattern turns place).2, range.Inside size := by
  induction turns generalizing place with
  | zero =>
    intro range member
    cases member
  | succ turns ih =>
    have count := matchAt_count_le memory place pattern
    rw [searchFrom_succ]
    intro range member
    rcases List.mem_cons.mp member with rfl | later
    · rw [ByteRange.inside_iff]
      simp only
      omega
    · split at later
      · cases later
      · exact ih (by omega) (by omega) range later

/-- A pattern longer than the buffer is not found before the end, and reading goes past it. -/
theorem searchFrom_outside {turns : ℕ} (long : size < pattern.length) (low : 0 ≤ place)
    (start : place ≤ size) (reaches : size < place + turns) :
    ∃ range ∈ (searchFrom memory pattern turns place).2, ¬range.Inside size := by
  induction turns generalizing place with
  | zero => omega
  | succ turns ih =>
    have nonempty : pattern ≠ [] := List.ne_nil_of_length_pos (by omega)
    have positive := matchAt_count_pos memory place nonempty
    rw [searchFrom_succ]
    rcases eq_or_ne place size with rfl | before
    · refine ⟨_, List.mem_cons_self, ?_⟩
      rw [ByteRange.inside_iff]
      simp only
      omega
    · rcases matched : (matchAt memory place pattern).1 with _ | _
      · obtain ⟨range, member, outside⟩ :=
          @ih (place + 1) (by omega) (by omega) (by push_cast at reaches; omega)
        exact ⟨range, List.mem_cons_of_mem _ (by simpa using member), outside⟩
      · have count := matchAt_count_of_matched matched
        refine ⟨_, List.mem_cons_self, ?_⟩
        rw [ByteRange.inside_iff]
        simp only
        omega

/-- A scalar value takes no more than three bytes for each of its UTF-16 units. -/
theorem length_utf8EncodeChar_le (c : Char) :
    (String.utf8EncodeChar c).length ≤ 3 * utf16Size c := by
  rw [String.length_utf8EncodeChar]
  unfold Char.utf8Size utf16Size
  split_ifs
  all_goals grind [UInt32.lt_iff_toNat_lt, UInt32.le_iff_toNat_le]

theorem length_utf8_le (text : String) :
    (utf8 text).length ≤ 3 * (text.toList.map utf16Size).sum := by
  unfold utf8
  induction text.toList with
  | nil => exact le_rfl
  | cons c rest ih =>
    have char := length_utf8EncodeChar_le c
    simp only [List.flatMap_cons, List.length_append, List.map_cons, List.sum_cons]
    omega

theorem length_decodeHex_le (str : List UInt8) : (decodeHex str).length ≤ str.length := by
  fun_induction decodeHex str with
  | case1 first second rest ih =>
    simp only [List.length_cons]
    omega
  | case2 => exact Nat.zero_le _

theorem length_decodeInIndexOf_le (encoding : String) (str : List UInt8) :
    (decodeInIndexOf encoding str).length ≤ str.length := by
  unfold decodeInIndexOf
  split
  · exact le_rfl
  · split
    · exact length_decodeHex_le str
    · exact le_rfl

/-- No buffer that is searched for has 2^31 bytes. -/
def SearchValue.Sized : SearchValue → Prop
  | .buffer value => value.bytes.length < 2 ^ 31
  | _ => True

theorem length_searchBytes_lt {value : SearchValue} (sized : value.Sized) :
    (searchBytes value).length < 2 ^ 32 := by
  cases value with
  | number value => simp [searchBytes]
  | string value encoding =>
    have decoded := length_decodeInIndexOf_le (encodingName encoding) (toCString value.text)
    have cut := length_beforeZero_le (utf8 value.text)
    have encoded := length_utf8_le value.text
    have units := value.length_lt
    simp only [searchBytes]
    unfold toCString at decoded ⊢
    omega
  | buffer value =>
    have small : value.bytes.length < 2 ^ 31 := sized
    simp only [searchBytes]
    omega
  | other => simp [searchBytes]

/-- The pattern is shorter than 2^31 bytes, or nothing is compared with it: the search starts at
the end, or the last place has become negative. -/
def SearchFits (size : ℕ) (value : SearchValue) (byteOffset : Option Int32) : Prop :=
  (searchBytes value).length < 2 ^ 31 ∨ size ≤ searchStart size byteOffset ∨
    (searchBytes value).length ≤ size + 2 ^ 31

variable {value : SearchValue} {byteOffset : Option Int32}

theorem searchStart_nonneg : 0 ≤ searchStart size byteOffset := by
  unfold searchStart
  simp only
  split_ifs <;> omega

theorem inside_bufferIndexOf_iff (small : size < 2 ^ 31) (sized : value.Sized) :
    (∀ range ∈ (bufferIndexOf memory size value byteOffset).2, range.Inside size) ↔
      SearchFits size value byteOffset := by
  have start : 0 ≤ searchStart size byteOffset := searchStart_nonneg
  have long := length_searchBytes_lt sized
  unfold bufferIndexOf SearchFits
  simp only [toInt_size small]
  split
  · rename_i empty
    simp [empty]
  · rename_i nonempty
    have positive : 0 < (searchBytes value).length := List.length_pos_iff.mpr nonempty
    split
    · rename_i behind
      simp [behind]
    · rename_i before
      rcases lt_or_ge (searchBytes value).length (2 ^ 31) with short | huge
      · -- the usual case: the last place leaves room for the pattern
        refine iff_of_true ?_ (.inl short)
        rw [toInt_size short, toInt_eq_self (by omega) (by omega)]
        exact searchFrom_inside start (by omega)
      · -- the conversion has made the length of the pattern negative
        have wrapped : toInt (searchBytes value).length = (searchBytes value).length - 2 ^ 32 := by
          rw [← toInt_sub_two_pow, toInt_eq_self (by omega) (by omega)]
        rw [wrapped]
        rcases le_or_gt (searchBytes value).length (size + 2 ^ 31) with overflows | reaches
        · refine iff_of_true ?_ (.inr (.inr overflows))
          rw [← toInt_sub_two_pow, toInt_eq_self (by omega) (by omega)]
          exact searchFrom_inside start (by omega)
        · refine iff_of_false ?_ (by omega)
          rw [toInt_eq_self (by omega) (by omega)]
          intro inside
          generalize turns_eq : (_ - searchStart size byteOffset + 1).toNat = turns at inside
          obtain ⟨range, member, outside⟩ := @searchFrom_outside memory (searchBytes value)
            (searchStart size byteOffset) size turns (by omega) start (by omega) (by omega)
          exact outside (inside range member)

end IndexOf

section Calls

/-- A range of bytes that a method reads or writes, and the size of the buffer it is in. -/
structure Access where
  range : ByteRange
  size : ℕ
deriving DecidableEq, Repr

def Access.InBounds (access : Access) : Prop := access.range.Inside access.size

instance (access : Access) : Decidable access.InBounds :=
  inferInstanceAs (Decidable (access.range.Inside access.size))

/-- The methods that work on ranges, with what decides the ranges. -/
inductive Call where
  | toString (size : ℕ) (first last : Option Int32)
  | slice (size : ℕ) (first last : Option Int32)
  | copy (srcSize targetSize : ℕ) (arguments : CopyArguments)
  | fill (size : ℕ) (offset last : Option Int32)
  | indexOf (memory : ℤ → UInt8) (size : ℕ) (value : SearchValue) (byteOffset : Option Int32)

/-- What a call reads and writes. A slice is written into a new buffer of its size. -/
def Call.accesses : Call → List Access
  | toString size first last => [⟨toStringRange size first last, size⟩]
  | slice size first last =>
    let range := sliceRange size first last
    [⟨range, size⟩, ⟨⟨0, range.length⟩, range.length⟩]
  | copy srcSize targetSize arguments =>
    let (source, target) := copyRanges srcSize targetSize arguments
    [⟨source, srcSize⟩, ⟨target, targetSize⟩]
  | fill size offset last => [⟨fillRange size offset last, size⟩]
  | indexOf memory size value byteOffset =>
    (bufferIndexOf memory size value byteOffset).2.map fun range => ⟨range, size⟩

def Call.InBounds (call : Call) : Prop := ∀ access ∈ call.accesses, access.InBounds

instance (call : Call) : Decidable call.InBounds :=
  inferInstanceAs (Decidable (∀ access ∈ call.accesses, access.InBounds))

section Effects

variable (decoder : Decoder) (buffer target : BufferObject)

/-- A method has a result exactly when all that it reads and writes is in bounds. -/
theorem isSome_bufferToString (encoding : Option String) (first last : Option Int32) :
    (bufferToString decoder buffer encoding first last).isSome ↔
      (Call.toString buffer.bytes.length first last).InBounds := by
  rw [bufferToString, Option.isSome_map, isSome_read]
  simp [Call.InBounds, Call.accesses, Access.InBounds]

theorem isSome_bufferSlice (first last : Option Int32) :
    (bufferSlice buffer first last).isSome ↔
      (Call.slice buffer.bytes.length first last).InBounds := by
  rw [bufferSlice, Option.isSome_map, isSome_read]
  simp [Call.InBounds, Call.accesses, Access.InBounds]

theorem isSome_bufferFill (value : FillValue) (offset last : Option Int32) :
    (bufferFill buffer value offset last).isSome ↔
      (Call.fill buffer.bytes.length offset last).InBounds := by
  rw [bufferFill, Option.isSome_map, isSome_write, List.length_replicate]
  simp [Call.InBounds, Call.accesses, Access.InBounds]

theorem isSome_bufferCopy (arguments : CopyArguments) :
    (bufferCopy buffer target arguments).isSome ↔
      (Call.copy buffer.bytes.length target.bytes.length arguments).InBounds := by
  have lengths : (copyRanges buffer.bytes.length target.bytes.length arguments).2.length =
      (copyRanges buffer.bytes.length target.bytes.length arguments).1.length := by
    unfold copyRanges
    dsimp only
    split <;> rfl
  simp only [Call.InBounds, Call.accesses, Access.InBounds, List.mem_cons, List.not_mem_nil,
    or_false, forall_eq_or_imp, forall_eq]
  unfold bufferCopy
  generalize copyRanges buffer.bytes.length target.bytes.length arguments = ranges at lengths ⊢
  obtain ⟨source, written⟩ := ranges
  dsimp only at lengths ⊢
  cases data : read buffer.bytes source with
  | none =>
    have outside : ¬source.Inside buffer.bytes.length := by
      rw [← isSome_read, data]
      simp
    simp [outside]
  | some bytes =>
    have inside : source.Inside buffer.bytes.length := by
      rw [← isSome_read, data]
      rfl
    rw [Option.bind_some, Option.isSome_map, isSome_write, length_read data, ← lengths]
    simp [inside]

/-- Whatever is copied, the target keeps its size. -/
theorem length_bufferCopy {arguments : CopyArguments} {result : BufferObject × ℤ}
    (copied : bufferCopy buffer target arguments = some result) :
    result.1.bytes.length = target.bytes.length := by
  unfold bufferCopy at copied
  simp only [Option.bind_eq_some_iff, Option.map_eq_some_iff] at copied
  obtain ⟨data, _, bytes, written, rfl⟩ := copied
  exact length_write written

theorem length_bufferFill {value : FillValue} {offset last : Option Int32} {result : BufferObject}
    (filled : bufferFill buffer value offset last = some result) :
    result.bytes.length = buffer.bytes.length := by
  unfold bufferFill at filled
  simp only [Option.map_eq_some_iff] at filled
  obtain ⟨bytes, written, rfl⟩ := filled
  exact length_write written

end Effects

/-- Every buffer of the call has less than 2^31 bytes. -/
def Call.Sized : Call → Prop
  | toString size _ _ | slice size _ _ | fill size _ _ => size < 2 ^ 31
  | copy srcSize targetSize _ => srcSize < 2 ^ 31 ∧ targetSize < 2 ^ 31
  | indexOf _ size value _ => size < 2 ^ 31 ∧ value.Sized

/-- The condition on the arguments under which nothing outside of a buffer is touched. -/
def Call.Fits : Call → Prop
  | toString .. | slice .. | fill .. => True
  | copy srcSize targetSize arguments => CopyFits srcSize targetSize arguments
  | indexOf _ size value byteOffset => SearchFits size value byteOffset

/-- Every byte that a call reads or writes lies in its buffer exactly when `copy` starts inside
its target and `indexOf` does not look for 2^31 bytes or more. -/
theorem Call.inBounds_iff (call : Call) (sized : call.Sized) : call.InBounds ↔ call.Fits := by
  cases call with
  | toString size first last =>
    simpa [Call.InBounds, Call.accesses, Call.Fits, Access.InBounds] using
      inside_toStringRange sized
  | slice size first last =>
    simpa [Call.InBounds, Call.accesses, Call.Fits, Access.InBounds] using
      inside_sliceRange sized
  | copy srcSize targetSize arguments =>
    have source : (copyRanges srcSize targetSize arguments).1.Inside srcSize :=
      inside_copyRanges_source sized.1 sized.2
    have target : (copyRanges srcSize targetSize arguments).2.Inside targetSize ↔
        CopyFits srcSize targetSize arguments :=
      inside_copyRanges_target_iff sized.1 sized.2
    simpa [Call.InBounds, Call.accesses, Call.Fits, Access.InBounds, source] using target
  | fill size offset last =>
    simpa [Call.InBounds, Call.accesses, Call.Fits, Access.InBounds,
      fillRange_eq_toStringRange] using inside_toStringRange sized
  | indexOf memory size value byteOffset =>
    have search : (∀ range ∈ (bufferIndexOf memory size value byteOffset).2, range.Inside size) ↔
        SearchFits size value byteOffset :=
      inside_bufferIndexOf_iff sized.1 sized.2
    simpa [Call.InBounds, Call.accesses, Call.Fits, Access.InBounds] using search

/-- A copy of ten bytes to offset 2 of a buffer of eight. -/
theorem Call.inBounds_copy_iff :
    (Call.copy 10 8 ⟨some 2, none, none⟩).InBounds ↔ (Call.copy 10 8 ⟨some 2, none, none⟩).Fits :=
  Call.inBounds_iff _ ⟨by norm_num, by norm_num⟩

/-- A copy of ten bytes to offset 6 of a buffer of five writes behind it. -/
theorem Call.not_inBounds_copy :
    (Call.copy 10 5 ⟨some 6, none, none⟩).Sized ∧
      ¬(Call.copy 10 5 ⟨some 6, none, none⟩).InBounds := by
  refine ⟨⟨by norm_num, by norm_num⟩, ?_⟩
  decide

end Calls

end ProtoJS.Buffer
