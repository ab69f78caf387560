import ProtoJS.Buffer.BufferBounds

/-! # Copies between buffers

As long as the position in the target lies inside, `copy` moves the bytes that the clamped range
of the source has, as far as the target has room, and nothing else changes in either buffer.
-/

namespace ProtoJS.Buffer

open Bytes

variable {α : Type*} [DecidableEq α]

/-- `copy` from one buffer object to another one. -/
def copyBetween (buffers : α → BufferObject) (source target : α) (arguments : CopyArguments) :
    Option ((α → BufferObject) × ℤ) :=
  (bufferCopy (buffers source) (buffers target) arguments).map fun (copied, count) =>
    (Function.update buffers target copied, count)

section Copies

variable {buffer target : BufferObject} {arguments : CopyArguments}

/-- The number of bytes that `copy` moves; a difference of crossed positions is 0. -/
def copyLength (srcSize targetSize targetStart sourceStart sourceEnd : ℕ) : ℕ :=
  min (min sourceEnd srcSize - min sourceStart srcSize) (targetSize - targetStart)

/-- The clamped ranges, when the position in the target lies inside. -/
theorem copyRanges_eq {srcSize targetSize targetStart sourceStart sourceEnd : ℕ}
    (srcSmall : srcSize < 2 ^ 31) (targetSmall : targetSize < 2 ^ 31)
    (targetStart_eq : intArgument arguments.targetStart 0 = targetStart)
    (sourceStart_eq : intArgument arguments.sourceStart 0 = sourceStart)
    (sourceEnd_eq : intArgument arguments.sourceEnd srcSize = sourceEnd)
    (inside : targetStart ≤ targetSize) :
    ∃ start : ℕ,
      copyRanges srcSize targetSize arguments =
        (⟨start, copyLength srcSize targetSize targetStart sourceStart sourceEnd⟩,
          ⟨targetStart, copyLength srcSize targetSize targetStart sourceStart sourceEnd⟩) ∧
      (0 < copyLength srcSize targetSize targetStart sourceStart sourceEnd →
        start = min sourceStart srcSize) := by
  obtain ⟨start, count, ranges, start_eq, count_eq⟩ := copyRanges_of_nonneg arguments srcSmall
    targetSmall targetStart_eq sourceStart_eq sourceEnd_eq (by omega)
  rw [if_pos (by exact_mod_cast inside)] at count_eq
  have length : count = copyLength srcSize targetSize targetStart sourceStart sourceEnd := by
    unfold copyLength
    omega
  refine ⟨start.toNat, ?_, ?_⟩
  · rw [ranges, length, Int.toNat_of_nonneg (by omega)]
  · intro positive
    omega

/-- `copy` returns the number of bytes it moves, and those it moves stand in the target. -/
theorem bufferCopy_eq {targetStart sourceStart sourceEnd : ℕ}
    (srcSmall : buffer.bytes.length < 2 ^ 31) (targetSmall : target.bytes.length < 2 ^ 31)
    (targetStart_eq : intArgument arguments.targetStart 0 = targetStart)
    (sourceStart_eq : intArgument arguments.sourceStart 0 = sourceStart)
    (sourceEnd_eq : intArgument arguments.sourceEnd buffer.bytes.length = sourceEnd)
    (inside : targetStart ≤ target.bytes.length) {count : ℕ}
    (count_eq : copyLength buffer.bytes.length target.bytes.length targetStart sourceStart sourceEnd
      = count) :
    ∃ copied, bufferCopy buffer target arguments = some (copied, (count : ℤ)) ∧
      copied.length = target.length ∧ copied.bytes.length = target.bytes.length ∧
      (∀ i < count, copied.bytes[targetStart + i]? =
        buffer.bytes[min sourceStart buffer.bytes.length + i]?) ∧
      ∀ position, position < targetStart ∨ targetStart + count ≤ position →
        copied.bytes[position]? = target.bytes[position]? := by
  obtain ⟨start, ranges, start_eq⟩ := copyRanges_eq srcSmall targetSmall targetStart_eq
    sourceStart_eq sourceEnd_eq inside
  rw [count_eq] at ranges start_eq
  have fits : CopyFits buffer.bytes.length target.bytes.length arguments := by
    unfold CopyFits
    simp only [targetStart_eq]
    omega
  have bounded : count < 2 ^ 31 := by
    unfold copyLength at count_eq
    omega
  -- both ranges are inside, so the copy has a result
  have sourceInside := @inside_copyRanges_source _ _ arguments srcSmall targetSmall
  have targetInside := (inside_copyRanges_target_iff srcSmall targetSmall).mpr fits
  rw [ranges] at sourceInside targetInside
  obtain ⟨data, data_eq⟩ := Option.isSome_iff_exists.mp (isSome_read.mpr sourceInside)
  have length := length_read data_eq
  simp only at length
  have room : (⟨targetStart, data.length⟩ : ByteRange).Inside target.bytes.length := by
    rw [length]
    exact targetInside
  obtain ⟨written, written_eq⟩ := Option.isSome_iff_exists.mp (isSome_write.mpr room)
  refine ⟨{ target with bytes := written }, ?_, rfl, length_write written_eq, ?_, ?_⟩
  · unfold bufferCopy
    rw [ranges]
    simp only [data_eq, Option.bind_some, written_eq, Option.map_some, toInt_size bounded]
  · intro i below
    have moved := @getElem?_write _ _ _ _ _ written_eq i (by omega)
    have taken := @getElem?_read _ _ _ _ data_eq i below
    rw [Int.toNat_natCast] at moved taken
    rw [moved, taken, start_eq (by omega)]
  · intro position outside
    exact getElem?_write_of_outside written_eq (by omega)

end Copies

/-- From a position inside of the target on, `copy` writes the bytes that it reports, and every
other byte of the two buffers, and every other buffer, stays as it is. -/
theorem copyBetween_eq (buffers : α → BufferObject) {source target : α} (distinct : source ≠ target)
    (arguments : CopyArguments) {targetStart sourceStart sourceEnd : ℕ}
    (srcSmall : (buffers source).bytes.length < 2 ^ 31)
    (targetSmall : (buffers target).bytes.length < 2 ^ 31)
    (targetStart_eq : intArgument arguments.targetStart 0 = targetStart)
    (sourceStart_eq : intArgument arguments.sourceStart 0 = sourceStart)
    (sourceEnd_eq : intArgument arguments.sourceEnd (buffers source).bytes.length = sourceEnd)
    (inside : targetStart ≤ (buffers target).bytes.length) :
    ∃ (after : α → BufferObject) (count : ℕ),
      copyBetween buffers source target arguments = some (after, (count : ℤ)) ∧
      (count : ℤ) = min (max 0 (min (sourceEnd : ℤ) (buffers source).bytes.length -
        min (sourceStart : ℤ) (buffers source).bytes.length))
          ((buffers target).bytes.length - targetStart) ∧
      (after target).bytes.length = (buffers target).bytes.length ∧
      (∀ i < count, (after target).bytes[targetStart + i]? =
        (buffers source).bytes[min sourceStart (buffers source).bytes.length + i]?) ∧
      (∀ position, position < targetStart ∨ targetStart + count ≤ position →
        (after target).bytes[position]? = (buffers target).bytes[position]?) ∧
      after source = buffers source ∧ ∀ other, other ≠ target → after other = buffers other := by
  obtain ⟨count, count_eq⟩ : ∃ count, copyLength (buffers source).bytes.length
      (buffers target).bytes.length targetStart sourceStart sourceEnd = count := ⟨_, rfl⟩
  obtain ⟨copied, result, -, length, moved, kept⟩ := bufferCopy_eq srcSmall targetSmall
    targetStart_eq sourceStart_eq sourceEnd_eq inside count_eq
  refine ⟨Function.update buffers target copied, count, ?_, ?_, ?_, ?_, ?_, ?_, ?_⟩
  · rw [copyBetween, result, Option.map_some]
  · unfold copyLength at count_eq
    omega
  · rw [Function.update_self, length]
  · rw [Function.update_self]
    exact moved
  · rw [Function.update_self]
    exact kept
  · exact Function.update_of_ne distinct _ _
  · intro other different
    exact Function.update_of_ne different _ _

/-- Three bytes and, in another buffer, room for two. -/
def threeAndTwo : Bool → BufferObject
  | true => ⟨[1, 2, 3], 3⟩
  | false => ⟨[8, 9], 2⟩

/-- A copy to the last byte of the target moves one. -/
theorem copyBetween_eq_threeAndTwo :
    ∃ (after : Bool → BufferObject) (count : ℕ),
      copyBetween threeAndTwo true false ⟨some 1, none, none⟩ = some (after, (count : ℤ)) ∧
      (count : ℤ) = 1 ∧ after true = threeAndTwo true := by
  obtain ⟨after, count, copied, count_eq, -, -, -, kept, -⟩ := copyBetween_eq threeAndTwo
    (show true ≠ false by decide) ⟨some 1, none, none⟩ (by decide) (by decide)
    (Int.ofNat_one.symm : intArgument (some 1) 0 = (1 : ℕ))
    (Int.ofNat_zero.symm : intArgument none 0 = (0 : ℕ))
    (rfl : intArgument none (3 : ℕ) = (3 : ℕ)) (by decide)
  exact ⟨after, count, copied, count_eq, kept⟩

end ProtoJS.Buffer
