import ProtoJS.Buffer.BufferBounds

/-! # Searching a buffer

`indexOf` gives the first place at or behind its start at which the pattern stands. The length of
the pattern is converted to `int`: from 2^31 bytes on the last place to try is wrong, and bytes
behind the buffer can be taken for the pattern.
-/

namespace ProtoJS.Buffer

open Words Bytes Strings

section Least

variable {P Q : ℕ → Prop} {start : ℕ} {result : ℤ}

/-- The least number from a start on that has a property, and -1 when none has. -/
def LeastFrom (P : ℕ → Prop) (start : ℕ) (result : ℤ) : Prop :=
  (∃ place : ℕ, result = place ∧ start ≤ place ∧ P place ∧
      ∀ earlier, start ≤ earlier → earlier < place → ¬P earlier) ∨
    (result = -1 ∧ ∀ place, start ≤ place → ¬P place)

theorem LeastFrom.congr (same : ∀ place, start ≤ place → (P place ↔ Q place)) :
    LeastFrom P start result ↔ LeastFrom Q start result := by
  unfold LeastFrom
  refine or_congr (exists_congr fun place => and_congr_right fun _ => ?_)
    (and_congr_right fun _ => forall₂_congr fun place above => not_congr (same place above))
  refine and_congr_right fun above => and_congr (same place above) ?_
  exact forall₃_congr fun earlier above _ => not_congr (same earlier above)

theorem LeastFrom.neg_one_iff (least : LeastFrom P start result) :
    result = -1 ↔ ∀ place, start ≤ place → ¬P place := by
  rcases least with ⟨place, rfl, above, holds, -⟩ | ⟨rfl, none⟩
  · exact iff_of_false (by omega) fun none => none place above holds
  · exact iff_of_true rfl none

theorem LeastFrom.nonneg_iff (least : LeastFrom P start result) : 0 ≤ result ↔ result ≠ -1 := by
  rcases least with ⟨place, rfl, -⟩ | ⟨rfl, -⟩
  · omega
  · omega

end Least

section Search

variable {memory : ℤ → UInt8} {bytes pattern : List UInt8}

/-- The memory behind the address of a buffer begins with the bytes of the buffer. -/
def Holds (memory : ℤ → UInt8) (bytes : List UInt8) : Prop :=
  ∀ (position : ℕ) (below : position < bytes.length), memory position = bytes[position]

theorem matchAt_cons (memory : ℤ → UInt8) (place : ℤ) (byte : UInt8) (rest : List UInt8) :
    (matchAt memory place (byte :: rest)).1 = true ↔
      memory place = byte ∧ (matchAt memory (place + 1) rest).1 = true := by
  rw [matchAt]
  split
  · rename_i different
    simp [different]
  · rename_i same
    simp [not_not.mp same]

/-- The comparison succeeds when the pattern stands at the place. -/
theorem matchAt_iff {place : ℤ} :
    (matchAt memory place pattern).1 = true ↔
      ∀ (i : ℕ) (below : i < pattern.length), memory (place + i) = pattern[i] := by
  induction pattern generalizing place with
  | nil => simp [matchAt]
  | cons byte rest ih =>
    rw [matchAt_cons, ih]
    constructor
    · rintro ⟨first, later⟩ i below
      cases i with
      | zero => simpa using first
      | succ i =>
        have next := later i (by simpa using below)
        rw [List.getElem_cons_succ, ← next]
        congr 1
        push_cast
        ring
    · intro all
      have first := all 0 (by simp)
      rw [List.getElem_cons_zero, Nat.cast_zero, add_zero] at first
      refine ⟨first, fun i below => ?_⟩
      have next := all (i + 1) (by simpa using below)
      rw [List.getElem_cons_succ] at next
      rw [← next]
      congr 1
      push_cast
      ring

/-- The loop finds the first of its places at which the comparison succeeds. -/
theorem searchFrom_least (memory : ℤ → UInt8) (pattern : List UInt8) (turns place : ℕ) :
    LeastFrom (fun other => other < place + turns ∧ (matchAt memory other pattern).1 = true) place
      (searchFrom memory pattern turns place).1 := by
  induction turns generalizing place with
  | zero =>
    refine .inr ⟨rfl, ?_⟩
    rintro other above ⟨below, -⟩
    omega
  | succ turns ih =>
    rw [searchFrom]
    rcases compared : matchAt memory place pattern with ⟨_ | _, count⟩
    · have later := ih (place + 1)
      push_cast at later
      simp only [Bool.false_eq_true, if_false]
      rcases later with ⟨found, found_eq, above, ⟨below, matched⟩, first⟩ | ⟨none_eq, none⟩
      · refine .inl ⟨found, found_eq, by omega, ⟨by omega, matched⟩, ?_⟩
        rintro earlier start before ⟨-, other⟩
        rcases eq_or_lt_of_le start with rfl | behind
        · rw [compared] at other
          cases other
        · exact first earlier behind before ⟨by omega, other⟩
      · refine .inr ⟨none_eq, ?_⟩
        rintro other start ⟨below, matched⟩
        rcases eq_or_lt_of_le start with rfl | behind
        · rw [compared] at matched
          cases matched
        · exact none other behind ⟨by omega, matched⟩
    · refine .inl ⟨place, rfl, le_rfl, ⟨by omega, by rw [compared]⟩, ?_⟩
      intro earlier start before
      omega

/-- What the memory shows from a place inside on begins with the rest of the buffer. -/
theorem matchAt_eq_true_iff (holds : Holds memory bytes) {place : ℕ}
    (room : place + pattern.length ≤ bytes.length) :
    (matchAt memory place pattern).1 = true ↔ pattern <+: bytes.drop place := by
  rw [matchAt_iff, List.prefix_iff_getElem]
  have long : pattern.length ≤ (bytes.drop place).length := by
    rw [List.length_drop]
    omega
  constructor
  · intro all
    refine ⟨long, fun i below => ?_⟩
    rw [List.getElem_drop, ← holds (place + i) (by omega), ← all i below]
    push_cast
    rfl
  · rintro ⟨_, all⟩ i below
    rw [all i below, List.getElem_drop, ← holds (place + i) (by omega)]
    push_cast
    rfl

/-- The bytes that a search value stands for: the low byte of a number, the UTF-8 encoding of a
string without U+0000, the bytes of a buffer. -/
inductive Denotes : SearchValue → List UInt8 → Prop
  | number (value : Int32) : Denotes (.number value) [lowByte value]
  | string (value : JSString) (encoding : Option String) (nul : '\x00' ∉ value.text.toList)
      (name : encodingName encoding = "utf8" ∨ encodingName encoding = "utf-8") :
      Denotes (.string value encoding) (utf8 value.text)
  | buffer (value : BufferObject) : Denotes (.buffer value) value.bytes

theorem searchBytes_of_denotes {value : SearchValue} (denotes : Denotes value pattern) :
    searchBytes value = pattern := by
  cases denotes with
  | number value => rfl
  | string value encoding nul name =>
    rw [searchBytes, decodeInIndexOf, if_pos name, toCString_eq_utf8_iff.mpr nul]
  | buffer value => rfl

/-- Where a search begins: a negative offset counts from the end, and not beyond the front. -/
def firstPlace (size : ℕ) (byteOffset : Option Int32) : ℕ :=
  (max 0 (fromEnd size (intArgument byteOffset 0))).toNat

theorem searchStart_eq {size : ℕ} (small : size < 2 ^ 31) (byteOffset : Option Int32) :
    searchStart size byteOffset = firstPlace size byteOffset := by
  have bounds := intArgument_mem byteOffset 0 (by omega) (by omega)
  unfold searchStart firstPlace
  simp only [addSize_eq_fromEnd bounds.1 small]
  split_ifs <;> omega

/-- The place of the pattern that `indexOf` promises. -/
def IsIndexOf (bytes pattern : List UInt8) (start : ℕ) (result : ℤ) : Prop :=
  LeastFrom (fun place => pattern <+: bytes.drop place) start result

/-- Whatever stands behind the buffer, both methods answer by the least place. -/
def SearchExact (bytes pattern : List UInt8) (value : SearchValue) (byteOffset : Option Int32) :
    Prop :=
  ∀ memory, Holds memory bytes →
    IsIndexOf bytes pattern (firstPlace bytes.length byteOffset)
        (bufferIndexOf memory bytes.length value byteOffset).1 ∧
      (bufferIncludes memory bytes.length value byteOffset = true ↔
        (bufferIndexOf memory bytes.length value byteOffset).1 ≠ -1)

/-- The pattern has fewer than 2^31 bytes; or nothing is tried; or at no place that is tried, up
to the end, the rest of the buffer begins the pattern. The last place is the difference of the
lengths as an `int`. -/
def PatternFits (bytes pattern : List UInt8) (start : ℕ) : Prop :=
  pattern.length < 2 ^ 31 ∨ bytes.length ≤ start ∨
    ∀ place : ℕ, start ≤ place → place ≤ bytes.length →
      place ≤ toInt (bytes.length - pattern.length) → ¬bytes.drop place <+: pattern

theorem not_prefix_of_long {place : ℕ} (long : bytes.length < place + pattern.length)
    (nonempty : pattern ≠ []) : ¬pattern <+: bytes.drop place := by
  intro occurs
  have room := occurs.length_le
  have positive := List.length_pos_iff.mpr nonempty
  rw [List.length_drop] at room
  omega

theorem toInt_sub_toInt (value other : ℤ) : toInt (value - toInt other) = toInt (value - other) :=
  Int.sub_bmod_bmod

/-- The search as the first success of a comparison, in front of the last place of the code. -/
theorem bufferIndexOf_least {value : SearchValue} {byteOffset : Option Int32} {start : ℕ}
    (bytes_eq : searchBytes value = pattern) (nonempty : pattern ≠ [])
    (small : bytes.length < 2 ^ 31) (start_eq : firstPlace bytes.length byteOffset = start) :
    LeastFrom (fun place => start < bytes.length ∧
        (place : ℤ) ≤ toInt (bytes.length - pattern.length) ∧
        (matchAt memory place pattern).1 = true) start
      (bufferIndexOf memory bytes.length value byteOffset).1 := by
  unfold bufferIndexOf
  simp only [bytes_eq, if_neg nonempty, searchStart_eq small, start_eq, toInt_size small,
    toInt_sub_toInt]
  split
  · rename_i behind
    refine .inr ⟨rfl, ?_⟩
    rintro place above ⟨before, -⟩
    omega
  · rename_i before
    refine (LeastFrom.congr ?_).mp (searchFrom_least memory pattern _ start)
    intro place above
    have bound : place < start + (toInt (bytes.length - pattern.length) - start + 1).toNat ↔
        (place : ℤ) ≤ toInt (bytes.length - pattern.length) := by
      omega
    have inside : start < bytes.length := by omega
    rw [bound]
    exact ⟨fun tried => ⟨inside, tried⟩, fun tried => tried.2⟩

/-- Below 2^31 bytes, the places that are tried are those where the pattern has room. -/
theorem isIndexOf_of_short {result : ℤ} {start : ℕ} (holds : Holds memory bytes)
    (nonempty : pattern ≠ []) (small : bytes.length < 2 ^ 31) (short : pattern.length < 2 ^ 31)
    (least : LeastFrom (fun place => start < bytes.length ∧
        (place : ℤ) ≤ toInt (bytes.length - pattern.length) ∧
        (matchAt memory place pattern).1 = true) start result) :
    IsIndexOf bytes pattern start result := by
  refine (LeastFrom.congr ?_).mp least
  intro place above
  rw [toInt_eq_self (by omega) (by omega)]
  have positive := List.length_pos_iff.mpr nonempty
  rcases le_or_gt (place + pattern.length) bytes.length with room | long
  · rw [matchAt_eq_true_iff holds room]
    exact ⟨fun tried => tried.2.2, fun occurs => ⟨by omega, by omega, occurs⟩⟩
  · refine iff_of_false ?_ (not_prefix_of_long long nonempty)
    rintro ⟨-, tried, -⟩
    omega

/-- The memory in which the pattern stands at a place, as far as the buffer allows. -/
def memoryWith (bytes pattern : List UInt8) (place : ℕ) (position : ℤ) : UInt8 :=
  if position < bytes.length then bytes.getD position.toNat 0
  else pattern.getD (position - place).toNat 0

theorem holds_memoryWith (bytes pattern : List UInt8) (place : ℕ) :
    Holds (memoryWith bytes pattern place) bytes := by
  intro position below
  rw [memoryWith, if_pos (by exact_mod_cast below), Int.toNat_natCast,
    List.getD_eq_getElem _ _ below]

/-- When the rest of the buffer begins the pattern, the memory behind it may hold what is left. -/
theorem matchAt_memoryWith {place : ℕ} (inside : place ≤ bytes.length)
    (begins : bytes.drop place <+: pattern) :
    (matchAt (memoryWith bytes pattern place) place pattern).1 = true := by
  rw [matchAt_iff]
  intro i below
  unfold memoryWith
  split
  · rename_i within
    have early : i < (bytes.drop place).length := by
      rw [List.length_drop]
      omega
    have same := begins.getElem early
    rw [List.getElem_drop] at same
    rw [← same, ← List.getD_eq_getElem _ 0 (by omega)]
    congr 1
  · rw [← List.getD_eq_getElem _ 0 below]
    congr 1
    omega

/-- A comparison that succeeds at a place up to the end shows the rest of the buffer first. -/
theorem prefix_of_matchAt (holds : Holds memory bytes) {place : ℕ}
    (long : bytes.length ≤ place + pattern.length)
    (matched : (matchAt memory place pattern).1 = true) : bytes.drop place <+: pattern := by
  rw [matchAt_iff] at matched
  rw [List.prefix_iff_getElem]
  refine ⟨by rw [List.length_drop]; omega, fun i below => ?_⟩
  rw [List.length_drop] at below
  rw [List.getElem_drop, ← holds (place + i) (by omega), ← matched i (by omega)]
  push_cast
  rfl

/-- From 2^31 bytes on the pattern is longer than the buffer: the answer is right when no memory
lets a comparison succeed. -/
theorem isIndexOf_iff_of_long {start : ℕ} (nonempty : pattern ≠ [])
    (small : bytes.length < 2 ^ 31) (long : 2 ^ 31 ≤ pattern.length) {answer : (ℤ → UInt8) → ℤ}
    (least : ∀ memory, LeastFrom (fun place => start < bytes.length ∧
        (place : ℤ) ≤ toInt (bytes.length - pattern.length) ∧
        (matchAt memory place pattern).1 = true) start (answer memory)) :
    (∀ memory, Holds memory bytes → IsIndexOf bytes pattern start (answer memory)) ↔
      PatternFits bytes pattern start := by
  have absent (place : ℕ) : ¬pattern <+: bytes.drop place :=
    not_prefix_of_long (by omega) nonempty
  have right (memory : ℤ → UInt8) :
      IsIndexOf bytes pattern start (answer memory) ↔ answer memory = -1 :=
    ⟨fun index => index.neg_one_iff.mpr fun place _ => absent place,
      fun none => .inr ⟨none, fun place _ => absent place⟩⟩
  simp only [right, (least _).neg_one_iff]
  constructor
  · intro unmatched
    rcases le_or_gt bytes.length start with behind | before
    · exact .inr (.inl behind)
    · refine .inr (.inr fun place above inside tried begins => ?_)
      exact unmatched _ (holds_memoryWith bytes pattern place) place above
        ⟨before, tried, matchAt_memoryWith inside begins⟩
  · rintro fits memory holds place above ⟨before, tried, matched⟩
    rcases fits with short | behind | unlike
    · omega
    · omega
    · rcases le_or_gt place bytes.length with inside | beyond
      · exact unlike place above inside tried (prefix_of_matchAt holds (by omega) matched)
      · -- the end was tried before, and any memory may show the pattern there
        refine unlike bytes.length before.le le_rfl (by omega) ?_
        rw [List.drop_length]
        exact List.nil_prefix

/-- `indexOf` gives the least place, and `includes` tells whether there is one, exactly when the
pattern fits. -/
theorem searchExact_iff {value : SearchValue} (denotes : Denotes value pattern)
    (nonempty : pattern ≠ []) (small : bytes.length < 2 ^ 31) (byteOffset : Option Int32) :
    SearchExact bytes pattern value byteOffset ↔
      PatternFits bytes pattern (firstPlace bytes.length byteOffset) := by
  have least (memory : ℤ → UInt8) := @bufferIndexOf_least memory bytes pattern value byteOffset _
    (searchBytes_of_denotes denotes) nonempty small rfl
  have included (memory : ℤ → UInt8) :
      bufferIncludes memory bytes.length value byteOffset = true ↔
        (bufferIndexOf memory bytes.length value byteOffset).1 ≠ -1 := by
    rw [bufferIncludes, decide_eq_true_eq]
    exact (least memory).nonneg_iff
  simp only [SearchExact, included, and_true]
  rcases lt_or_ge pattern.length (2 ^ 31) with short | long
  · exact iff_of_true
      (fun memory holds => isIndexOf_of_short holds nonempty small short (least memory))
      (.inl short)
  · exact isIndexOf_iff_of_long nonempty small long least

/-- Two bytes in a buffer of three, from the second one on. -/
theorem searchExact_iff_three :
    SearchExact [1, 2, 2] [2, 2] (.buffer ⟨[2, 2], 2⟩) (some (-2)) ↔
      PatternFits [1, 2, 2] [2, 2] (firstPlace 3 (some (-2))) :=
  searchExact_iff (.buffer ⟨[2, 2], 2⟩) (by decide) (by decide) (some (-2))

/-- A zero byte followed by zeros is taken for a pattern of 2^31 + 3 zeros. -/
theorem not_searchExact_long :
    Denotes (.buffer (.ofBytes (List.replicate (2 ^ 31 + 3) 0))) (List.replicate (2 ^ 31 + 3) 0) ∧
      ¬SearchExact [0] (List.replicate (2 ^ 31 + 3) 0)
        (.buffer (.ofBytes (List.replicate (2 ^ 31 + 3) 0))) none := by
  have length : (List.replicate (2 ^ 31 + 3) (0 : UInt8)).length = 2 ^ 31 + 3 :=
    List.length_replicate
  have nonempty : List.replicate (2 ^ 31 + 3) (0 : UInt8) ≠ [] :=
    List.ne_nil_of_length_pos (by omega)
  have wrapped : toInt (([0] : List UInt8).length -
      (List.replicate (2 ^ 31 + 3) (0 : UInt8)).length) = 2 ^ 31 - 2 := by
    rw [length]
    decide
  refine ⟨.buffer _, fun answers => ?_⟩
  have fits := (isIndexOf_iff_of_long nonempty (by decide) (by omega)
    fun memory => bufferIndexOf_least rfl nonempty (by decide) rfl).mp
      fun memory holds => (answers memory holds).1
  rcases fits with short | behind | unlike
  · omega
  · revert behind
    decide
  · refine unlike 1 (by decide) (by decide) ?_ List.nil_prefix
    rw [wrapped]
    norm_num

end Search

end ProtoJS.Buffer
