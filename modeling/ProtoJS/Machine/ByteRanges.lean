import Mathlib

/-! # Byte ranges

A range of bytes is given by an offset into a block and a length; the offset may lie outside of
the block. Reading and writing a range succeed when every byte of it lies inside.
-/

namespace ProtoJS.Bytes

structure ByteRange where
  first : ℤ
  length : ℕ
deriving DecidableEq, Repr

namespace ByteRange

/-- Every byte of the range is one of the block's. -/
def Inside (range : ByteRange) (size : ℕ) : Prop :=
  ∀ position : ℤ, range.first ≤ position → position < range.first + range.length →
    0 ≤ position ∧ position < size

variable {range : ByteRange} {size : ℕ}

theorem inside_iff :
    range.Inside size ↔
      range.length = 0 ∨ (0 ≤ range.first ∧ range.first + range.length ≤ size) := by
  constructor
  · intro inside
    rcases Nat.eq_zero_or_pos range.length with empty | positive
    · exact .inl empty
    · have lowest := inside range.first le_rfl (by omega)
      have highest := inside (range.first + range.length - 1) (by omega) (by omega)
      exact .inr ⟨lowest.1, by omega⟩
  · rintro (empty | ⟨low, high⟩) position above below
    · omega
    · exact ⟨by omega, by omega⟩

instance : Decidable (range.Inside size) := decidable_of_iff _ inside_iff.symm

@[simp] theorem inside_whole (length : ℕ) : (⟨0, length⟩ : ByteRange).Inside length :=
  inside_iff.mpr (.inr ⟨le_rfl, by simp⟩)

end ByteRange

variable {α : Type*}

/-- The bytes of a range, unless one of them lies outside. -/
def read (block : List α) (range : ByteRange) : Option (List α) :=
  if range.Inside block.length then some ((block.drop range.first.toNat).take range.length)
  else none

/-- A block after a range of it has been overwritten, unless the range reaches outside. -/
def write (block : List α) (first : ℤ) (data : List α) : Option (List α) :=
  if (⟨first, data.length⟩ : ByteRange).Inside block.length then
    some (block.take first.toNat ++ data ++ block.drop (first.toNat + data.length))
  else none

theorem read_of_inside {block : List α} {range : ByteRange} (inside : range.Inside block.length) :
    read block range = some ((block.drop range.first.toNat).take range.length) :=
  if_pos inside

theorem isSome_read {block : List α} {range : ByteRange} :
    (read block range).isSome ↔ range.Inside block.length := by
  unfold read
  split <;> simp_all

theorem length_read {block bytes : List α} {range : ByteRange}
    (result : read block range = some bytes) : bytes.length = range.length := by
  unfold read at result
  split at result
  · rename_i inside
    cases result
    rcases ByteRange.inside_iff.mp inside with empty | ⟨low, high⟩
    · simp [empty]
    · simp only [List.length_take, List.length_drop]
      omega
  · cases result

theorem isSome_write {block data : List α} {first : ℤ} :
    (write block first data).isSome ↔ (⟨first, data.length⟩ : ByteRange).Inside block.length := by
  unfold write
  split <;> simp_all

theorem length_write {block data written : List α} {first : ℤ}
    (result : write block first data = some written) : written.length = block.length := by
  unfold write at result
  split at result
  · rename_i inside
    cases result
    rcases ByteRange.inside_iff.mp inside with empty | ⟨low, high⟩
    · simp only [List.length_eq_zero_iff.mp empty, List.append_nil, List.length_nil, Nat.add_zero,
        List.take_append_drop]
    · simp only [List.length_append, List.length_take, List.length_drop]
      simp only at low high
      omega
  · cases result

/-- What is written behind a front ends up behind it, in the place of as many bytes. -/
theorem write_append (front gap rest data : List α) (same : gap.length = data.length) :
    write (front ++ gap ++ rest) front.length data = some (front ++ data ++ rest) := by
  have inside : (⟨front.length, data.length⟩ : ByteRange).Inside (front ++ gap ++ rest).length := by
    rw [ByteRange.inside_iff]
    simp only [List.length_append]
    omega
  rw [write, if_pos inside, Int.toNat_natCast, ← same, ← List.length_append, List.drop_left,
    List.append_assoc front, List.take_left]

/-- A byte that has been read is the one at its place in the range. -/
theorem getElem?_read {block bytes : List α} {range : ByteRange}
    (result : read block range = some bytes) {position : ℕ} (below : position < range.length) :
    bytes[position]? = block[range.first.toNat + position]? := by
  unfold read at result
  split at result
  · cases result
    rw [List.getElem?_take_of_lt below, List.getElem?_drop]
  · cases result

/-- Where a range has been overwritten the new bytes stand. -/
theorem getElem?_write {block data written : List α} {first : ℤ}
    (result : write block first data = some written) {position : ℕ}
    (below : position < data.length) : written[first.toNat + position]? = data[position]? := by
  unfold write at result
  split at result
  · rename_i inside
    cases result
    rcases ByteRange.inside_iff.mp inside with empty | ⟨low, high⟩
    · simp only at empty
      omega
    · simp only at low high
      have front : (block.take first.toNat).length = first.toNat := by
        rw [List.length_take]
        omega
      rw [List.append_assoc, List.getElem?_append_right (by omega), front, Nat.add_sub_cancel_left,
        List.getElem?_append_left below]
  · cases result

/-- Outside of the range nothing has changed. -/
theorem getElem?_write_of_outside {block data written : List α} {first : ℤ}
    (result : write block first data = some written) {position : ℕ}
    (outside : (position : ℤ) < first ∨ first + data.length ≤ position) :
    written[position]? = block[position]? := by
  unfold write at result
  split at result
  · rename_i inside
    cases result
    rcases ByteRange.inside_iff.mp inside with empty | ⟨low, high⟩
    · rw [List.length_eq_zero_iff.mp empty, List.append_nil, List.length_nil, Nat.add_zero,
        List.take_append_drop]
    · simp only at low high
      have front : (block.take first.toNat ++ data).length = first.toNat + data.length := by
        rw [List.length_append, List.length_take]
        omega
      rcases outside with before | behind
      · rw [List.append_assoc, List.getElem?_append_left (by rw [List.length_take]; omega),
          List.getElem?_take_of_lt (by omega)]
      · rw [List.getElem?_append_right (by omega), front, List.getElem?_drop]
        congr 1
        omega
  · cases result

end ProtoJS.Bytes
