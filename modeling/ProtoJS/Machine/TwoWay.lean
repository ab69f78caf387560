import Mathlib

/-! # Maps kept in two directions

A value is stored under its key together with the object it refers to, and the object leads back
to the value. Several values may have one key, so a registration can displace an entry; the
library says when the two directions still agree after an update.
-/

namespace ProtoJS

/-- The directions from values to objects, by keys, and from objects back to values. -/
structure TwoWay {ν κ : Type*} (key : ν → κ) (π : Type*) where
  forward : κ → Option (ν × π)
  reverse : π → Option ν
  /-- A value is stored under its own key. -/
  keyed : ∀ k value object, forward k = some (value, object) → key value = k

namespace TwoWay

variable {ν κ π : Type*} {key : ν → κ}

/-- The map without entries. -/
def empty : TwoWay key π where
  forward _ := none
  reverse _ := none
  keyed := by simp

/-- The directions say the same. -/
def Consistent (m : TwoWay key π) : Prop :=
  ∀ value object, m.reverse object = some value ↔ m.forward (key value) = some (value, object)

/-- No object is what two values refer to. -/
def OneValueEach (m : TwoWay key π) : Prop :=
  ∀ value other object, m.forward (key value) = some (value, object) →
    m.forward (key other) = some (other, object) → value = other

theorem consistent_empty : (empty : TwoWay key π).Consistent := by
  intro value object
  simp [empty]

variable [DecidableEq κ] {m : TwoWay key π} {value other : ν} {object : π} {k : κ}

/-- Remove what is stored under a key, and nothing else. -/
def forget (m : TwoWay key π) (k : κ) : TwoWay key π where
  forward := Function.update m.forward k none
  reverse := m.reverse
  keyed other stored object found := by
    by_cases own : other = k
    · subst own
      simp at found
    · rw [Function.update_of_ne own] at found
      exact m.keyed other stored object found

theorem forward_forget : (m.forget k).forward = Function.update m.forward k none := rfl

@[simp] theorem reverse_forget : (m.forget k).reverse = m.reverse := rfl

/-- To remove an entry alone keeps the agreement only if there was none. -/
theorem consistent_forget_iff (consistent : m.Consistent) :
    (m.forget k).Consistent ↔ m.forward k = none := by
  constructor
  · intro after
    cases stored : m.forward k with
    | none => rfl
    | some entry =>
      have own := m.keyed k entry.1 entry.2 stored
      have back : (m.forget k).reverse entry.2 = some entry.1 := by
        rw [reverse_forget, consistent, own]
        exact stored
      rw [after, own, forward_forget, Function.update_self] at back
      cases back
  · intro absent w p
    rw [reverse_forget, forward_forget, consistent]
    by_cases same : key w = k
    · rw [same, absent, Function.update_self]
    · rw [Function.update_of_ne same]

variable [DecidableEq π]

/-- Store a value under its key and the object's way back, over what was stored there. -/
def register (m : TwoWay key π) (value : ν) (object : π) : TwoWay key π where
  forward := Function.update m.forward (key value) (some (value, object))
  reverse := Function.update m.reverse object (some value)
  keyed k stored other found := by
    by_cases own : k = key value
    · subst own
      simp only [Function.update_self, Option.some.injEq, Prod.mk.injEq] at found
      rw [found.1]
    · rw [Function.update_of_ne own] at found
      exact m.keyed k stored other found

/-- Remove what is stored under a key, and an object's way back. -/
def release (m : TwoWay key π) (k : κ) (object : π) : TwoWay key π :=
  { m.forget k with reverse := Function.update m.reverse object none }

theorem forward_register : (m.register value object).forward =
    Function.update m.forward (key value) (some (value, object)) := rfl

theorem reverse_register : (m.register value object).reverse =
    Function.update m.reverse object (some value) := rfl

theorem forward_release : (m.release k object).forward = Function.update m.forward k none := rfl

theorem reverse_release : (m.release k object).reverse =
    Function.update m.reverse object none := rfl

/-- A registration keeps the directions in agreement exactly if the key of the value led to
nothing, or to the same object before. -/
theorem consistent_register_iff (consistent : m.Consistent)
    (one : (m.register value object).OneValueEach) :
    (m.register value object).Consistent ↔
      ∀ stored ∈ m.forward (key value), stored.2 = object := by
  have registered : (m.register value object).forward (key value) = some (value, object) := by
    rw [forward_register, Function.update_self]
  constructor
  · rintro after ⟨displaced, former⟩ found
    by_contra! different
    have same := m.keyed _ _ _ found
    -- the way back of the former object still leads to the displaced value
    have back : (m.register value object).reverse former = some displaced := by
      rw [reverse_register, Function.update_of_ne different, consistent, same]
      exact found
    rw [after, same, registered] at back
    cases back
    exact different rfl
  · intro clean w p
    by_cases here : p = object
    · subst here
      rw [reverse_register, Function.update_self]
      constructor
      · rintro ⟨⟩
        exact registered
      · intro found
        rw [one value w p registered found]
    · rw [reverse_register, Function.update_of_ne here, consistent]
      by_cases own : key w = key value
      · rw [own, registered]
        constructor
        · intro found
          exact absurd (clean _ found) here
        · rintro ⟨⟩
          exact absurd rfl here
      · rw [forward_register, Function.update_of_ne own]

/-- To remove an entry together with the way back of its object keeps the agreement. -/
theorem consistent_release (consistent : m.Consistent)
    (stored : m.forward k = some (other, object)) : (m.release k object).Consistent := by
  have own := m.keyed _ _ _ stored
  have back : m.reverse object = some other := by
    rw [consistent, own]
    exact stored
  intro w p
  by_cases here : p = object
  · subst here
    rw [reverse_release, forward_release, Function.update_self]
    refine iff_of_false (by simp) fun found => ?_
    by_cases same : key w = k
    · simp [same] at found
    · rw [Function.update_of_ne same, ← consistent, back] at found
      cases found
      exact same own
  · rw [reverse_release, forward_release, Function.update_of_ne here, consistent]
    by_cases same : key w = k
    · rw [same, stored, Function.update_self]
      simp [Ne.symm here]
    · rw [Function.update_of_ne same]

end TwoWay

end ProtoJS
