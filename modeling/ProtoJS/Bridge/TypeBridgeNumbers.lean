import ProtoJS.Bridge.TypeBridge

/-! # Integers across the type bridge

Numbers and BigInts become the same protoCore integers. On the way back an integer is a Number
when it fits into 32 bits and a BigInt otherwise, whatever it was before.
-/

namespace ProtoJS.Bridge.TypeBridge

open Words

variable {Str : Type} {core : ProtoCore} {engine : Engine Str}

theorem toJS_fromInteger {n : ℤ} (low : -2 ^ 63 ≤ n) (high : n < 2 ^ 63) (fuel : ℕ) :
    toJS core engine (fuel + 1) (core.fromInteger n) = some (toInteger n) := by
  rw [toJS, core.kind_fromInteger]
  simp only [core.asLong_fromInteger n low high]

theorem toJS_fromLong {v : ℤ} (low : -2 ^ 63 ≤ v) (high : v < 2 ^ 63) (fuel : ℕ) :
    toJS core engine (fuel + 1) (core.fromLong v) = some (toInteger v) := by
  rw [toJS, core.kind_fromLong]
  simp only [core.asLong_fromLong v low high]

theorem fromJS_integer {n : ℤ} (low : -2 ^ 63 ≤ n) (high : n < 2 ^ 63) :
    fromJS core engine (.number (.finite n)) = core.fromInteger n := by
  rw [fromJS, fromNumber, longLong_intCast low high, if_pos rfl]

/-- Whatever a BigInt is, its low 64 bits come back. -/
theorem returns_bigint_iff (v : ℤ) (result : JSValue Str) :
    Returns core engine (.bigint v) result ↔ result = toInteger (signed 64 v) := by
  apply returns_iff
  rw [fromJS]
  exact toJS_fromLong le_signed signed_lt 0

/-- An integer keeps its value: a Number up to 2^53 and a BigInt of 64 bits come back as a Number
when they fit into 32 bits and as a BigInt when they do not. -/
theorem integers_return (core : ProtoCore) (engine : Engine Str) :
    (∀ (n : ℤ) (result : JSValue Str), |n| ≤ 2 ^ 53 →
      (Returns core engine (.number (.finite n)) result ↔
        result = if -2 ^ 31 ≤ n ∧ n ≤ 2 ^ 31 - 1 then .number (.finite n) else .bigint n)) ∧
    ∀ (v : ℤ) (result : JSValue Str), -2 ^ 63 ≤ v → v < 2 ^ 63 →
      (Returns core engine (.bigint v) result ↔
        result = if -2 ^ 31 ≤ v ∧ v ≤ 2 ^ 31 - 1 then .number (.finite v) else .bigint v) := by
  refine ⟨?_, ?_⟩
  · intro n result bounded
    obtain ⟨low, high⟩ := abs_le.mp bounded
    apply returns_iff
    rw [fromJS_integer (by omega) (by omega)]
    exact toJS_fromInteger (by omega) (by omega) 0
  · intro v result low high
    rw [returns_bigint_iff, @signed_eq_self 63 v low high]
    rfl

/-- 2^31 as a Number, and 5 as a BigInt. -/
theorem integers_return_examples :
    Returns .terms .lossy (.number (.finite (2 ^ 31 : ℤ))) (.bigint (2 ^ 31)) ∧
      Returns .terms .lossy (.bigint 5) (.number (.finite (5 : ℤ))) :=
  ⟨((integers_return .terms .lossy).1 (2 ^ 31) _ (by norm_num)).mpr (by norm_num),
    ((integers_return .terms .lossy).2 5 _ (by norm_num) (by norm_num)).mpr (by norm_num)⟩

/-- The Number 2^31 does not come back as a Number. -/
theorem not_returns_two_pow :
    ¬Returns .terms .lossy (.number (.finite (2 ^ 31 : ℤ))) (.number (.finite (2 ^ 31 : ℤ))) := by
  intro returned
  have bigint : Returns .terms .lossy (.number (.finite (2 ^ 31 : ℤ))) (.bigint (2 ^ 31)) := by
    refine ⟨1, ?_⟩
    rw [fromJS_integer (by norm_num) (by norm_num), toJS_fromInteger (by norm_num) (by norm_num)]
    rfl
  cases returned.unique bigint

end ProtoJS.Bridge.TypeBridge
