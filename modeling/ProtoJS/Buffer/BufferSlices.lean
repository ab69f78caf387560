import ProtoJS.Buffer.BufferBounds

/-! # Slices and concatenation

Both halves of a buffer are cut at the same place, whatever number names it, and `concat` fills
its result from the front without a gap.
-/

namespace ProtoJS.Buffer

open Words Bytes

section Slices

variable {buffer : BufferObject}

/-- Where `slice` cuts a buffer of the given size. -/
def cutAt (size : ℕ) (k : Int32) : ℕ := (min (fromEnd size k.toInt) size).toNat

theorem bufferSlice_eq {first last : Option Int32} {start : ℤ} {count : ℕ}
    (small : buffer.bytes.length < 2 ^ 31)
    (range : sliceRange buffer.bytes.length first last = ⟨start, count⟩) :
    bufferSlice buffer first last =
      some (BufferObject.ofBytes ((buffer.bytes.drop start.toNat).take count)) := by
  have inside : (⟨start, count⟩ : ByteRange).Inside buffer.bytes.length :=
    range ▸ inside_sliceRange small
  have length : ((buffer.bytes.drop start.toNat).take count).length = count := by
    rw [List.length_take, List.length_drop]
    rcases ByteRange.inside_iff.mp inside with empty | ⟨low, high⟩
    · simp only at empty
      omega
    · simp only at low high
      omega
  rw [bufferSlice, range]
  simp only [read_of_inside inside, Option.map_some, BufferObject.ofBytes, length]

/-- `slice(0, k)` is what stands in front of the cut. -/
theorem bufferSlice_front (small : buffer.bytes.length < 2 ^ 31) (k : Int32) :
    bufferSlice buffer (some 0) (some k) =
      some (BufferObject.ofBytes (buffer.bytes.take (cutAt buffer.bytes.length k))) := by
  obtain ⟨count, range, length⟩ :=
    @sliceRange_eq buffer.bytes.length (some 0) (some k) small _ _ rfl rfl
  have zero : fromEnd buffer.bytes.length (intArgument (some 0) 0) = 0 := rfl
  rw [zero] at range length
  rw [bufferSlice_eq small range]
  have start : (min (max 0 0) (min (fromEnd buffer.bytes.length k.toInt) buffer.bytes.length)).toNat
      = 0 := by
    omega
  have cut : count = cutAt buffer.bytes.length k := by
    unfold cutAt
    simp only [intArgument] at length
    omega
  rw [intArgument, start, cut, List.drop_zero]

/-- `slice(k)` is what stands behind it. -/
theorem bufferSlice_back (small : buffer.bytes.length < 2 ^ 31) (k : Int32) :
    bufferSlice buffer (some k) none =
      some (BufferObject.ofBytes (buffer.bytes.drop (cutAt buffer.bytes.length k))) := by
  obtain ⟨count, range, length⟩ :=
    @sliceRange_eq buffer.bytes.length (some k) none small _ _ rfl rfl
  have whole : fromEnd buffer.bytes.length (intArgument none buffer.bytes.length) =
      buffer.bytes.length := by
    rw [intArgument, fromEnd, if_neg (by omega)]
  rw [whole] at range length
  rw [bufferSlice_eq small range]
  simp only [intArgument] at length ⊢
  have start : (min (max 0 (fromEnd buffer.bytes.length k.toInt))
      (min (buffer.bytes.length : ℤ) buffer.bytes.length)).toNat = cutAt buffer.bytes.length k := by
    unfold cutAt
    omega
  have rest : (buffer.bytes.drop (cutAt buffer.bytes.length k)).length ≤ count := by
    rw [List.length_drop]
    unfold cutAt
    omega
  rw [start, List.take_of_length_le rest]

end Slices

section Concat

variable {alloc : Allocator}

/-- The copying loop keeps what it has copied and goes on behind it. -/
theorem copyAll_append (done gap : List UInt8) (buffers : List (List UInt8))
    (room : gap.length = (buffers.map List.length).sum)
    (fits : done.length + gap.length < 2 ^ 64) :
    copyAll (done ++ gap) done.length buffers = some (done ++ buffers.flatten) := by
  induction buffers generalizing done gap with
  | nil =>
    have empty : gap = [] := List.length_eq_zero_iff.mp (by simpa using room)
    simp [copyAll, empty]
  | cons src rest ih =>
    simp only [List.map_cons, List.sum_cons] at room
    obtain ⟨front, back, rfl, same⟩ :
        ∃ front back, gap = front ++ back ∧ front.length = src.length :=
      ⟨gap.take src.length, gap.drop src.length, (List.take_append_drop _ _).symm, by
        rw [List.length_take]; omega⟩
    simp only [List.length_append] at room fits
    have offset : toUnsignedLong ((done.length : ℕ) + (src.length : ℕ)) = (done ++ src).length := by
      rw [List.length_append]
      exact_mod_cast @unsigned_eq_self 64 (done.length + src.length) (by omega)
    rw [copyAll, ← List.append_assoc, write_append done front back src same, Option.bind_some,
      offset, ih (done ++ src) back (by omega) (by rw [List.length_append]; omega),
      List.flatten_cons, List.append_assoc]

/-- Sizes that fit together into a `size_t` are added up without loss. -/
theorem foldl_toUnsignedLong (buffers : List (List UInt8)) (total : ℕ)
    (fits : total + (buffers.map List.length).sum < 2 ^ 64) :
    buffers.foldl (fun (total : ℕ) src => toUnsignedLong (total + src.length)) total =
      total + (buffers.map List.length).sum := by
  induction buffers generalizing total with
  | nil => rfl
  | cons src rest ih =>
    simp only [List.map_cons, List.sum_cons] at fits ⊢
    have sum : toUnsignedLong ((total : ℤ) + (src.length : ℤ)) = total + src.length := by
      exact_mod_cast @unsigned_eq_self 64 (total + src.length) (by omega)
    rw [List.foldl_cons, sum, ih (total + src.length) (by omega), Nat.add_assoc]

/-- `concat` lays the bytes of its buffers one after the other. -/
theorem bufferConcat_eq (buffers : List BufferObject)
    (fits : ((buffers.map BufferObject.bytes).map List.length).sum < 2 ^ 64) :
    bufferConcat alloc (buffers.map some) =
      some (BufferObject.ofBytes (buffers.map BufferObject.bytes).flatten) := by
  have present : (buffers.map some).filterMap id = buffers := by
    rw [List.filterMap_map]
    exact List.filterMap_some
  have total : (buffers.map BufferObject.bytes).foldl
      (fun (total : ℕ) src => toUnsignedLong (total + src.length)) 0 =
        ((buffers.map BufferObject.bytes).map List.length).sum := by
    rw [foldl_toUnsignedLong _ 0 (by omega), Nat.zero_add]
  have copied := copyAll_append [] (alloc.newBuffer _) (buffers.map BufferObject.bytes)
    (alloc.length_newBuffer _) (by rw [alloc.length_newBuffer]; simpa using fits)
  rw [List.nil_append, List.nil_append, List.length_nil] at copied
  rw [bufferConcat, present, total, copied, Option.map_some, BufferObject.ofBytes,
    List.length_flatten]

/-- Two halves of a buffer, put together again, are the buffer; and any list of buffers whose
sizes add up to a size is concatenated in order. -/
theorem concat_slices (alloc : Allocator) :
    (∀ (buffer : BufferObject) (k : Int32), buffer.bytes.length < 2 ^ 31 →
      ∃ front back result,
        bufferSlice buffer (some 0) (some k) = some front ∧
        bufferSlice buffer (some k) none = some back ∧
        bufferConcat alloc [some front, some back] = some result ∧
        result.bytes = buffer.bytes ∧ result.length = buffer.bytes.length) ∧
    ∀ buffers : List BufferObject,
      ((buffers.map BufferObject.bytes).map List.length).sum < 2 ^ 64 →
      ∃ result, bufferConcat alloc (buffers.map some) = some result ∧
        result.bytes = (buffers.map BufferObject.bytes).flatten := by
  refine ⟨?_, ?_⟩
  · intro buffer k small
    have halves : bufferConcat alloc
        [some (BufferObject.ofBytes (buffer.bytes.take (cutAt buffer.bytes.length k))),
          some (BufferObject.ofBytes (buffer.bytes.drop (cutAt buffer.bytes.length k)))] =
        some (BufferObject.ofBytes buffer.bytes) := by
      refine (bufferConcat_eq [BufferObject.ofBytes _, BufferObject.ofBytes _] ?_).trans ?_
      · simp only [List.map_cons, List.map_nil, List.sum_cons, List.sum_nil,
          BufferObject.ofBytes_bytes, List.length_take, List.length_drop]
        omega
      · simp
    exact ⟨_, _, _, bufferSlice_front small k, bufferSlice_back small k, halves,
      BufferObject.ofBytes_bytes _, BufferObject.ofBytes_length (by omega)⟩
  · intro buffers fits
    exact ⟨_, bufferConcat_eq buffers fits, BufferObject.ofBytes_bytes _⟩

/-- Memory that is handed out full of zeros. -/
def Allocator.zeros : Allocator where
  newBuffer size := List.replicate size 0
  length_newBuffer _ := List.length_replicate

/-- Three bytes, cut in front of the last one. -/
theorem concat_slices_three :
    ∃ front back result,
      bufferSlice ⟨[1, 2, 3], 3⟩ (some 0) (some (-1)) = some front ∧
      bufferSlice ⟨[1, 2, 3], 3⟩ (some (-1)) none = some back ∧
      bufferConcat .zeros [some front, some back] = some result ∧
      result.bytes = [1, 2, 3] ∧ result.length = 3 :=
  (concat_slices .zeros).1 ⟨[1, 2, 3], 3⟩ (-1) (by decide)

end Concat

end ProtoJS.Buffer
