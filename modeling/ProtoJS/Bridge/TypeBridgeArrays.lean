import ProtoJS.Bridge.TypeBridge

/-! # Arrays across the type bridge

An array that is stored as a `ProtoList` comes back item by item, at any depth. One that is stored
as a `ProtoSparseList` does not come back as an array, since `toJS` has no branch for it.
-/

namespace ProtoJS.Bridge.TypeBridge

open Words Strings

variable {Str : Type}

section ClosedForm

variable (core : ProtoCore) (engine : Engine Str)

/-- What becomes of an object that is none of the kinds that `toJS` knows. -/
def lost (obj : core.Object) : JSValue Str :=
  .object (if core.isCell obj then none else engine.newString (utf8 "ProtoObject"))

/-- The array is stored as a `ProtoList`. -/
def StoredAsList (elements : List (JSValue Str)) : Prop :=
  (∀ i < elements.length, engine.hasProperty (.array elements) i = true) ∧ elements.length ≤ 10000

instance (elements : List (JSValue Str)) : Decidable (StoredAsList engine elements) :=
  inferInstanceAs (Decidable (_ ∧ _))

mutual

/-- What comes back of a value. -/
def image : JSValue Str → JSValue Str
  | .undefined => .null
  | .null => .null
  | .bool value => .bool value
  | .number (.finite value) =>
    if value = longLong value then toInteger (longLong value) else .number (.finite value)
  | .number value => .number value
  | .bigint value => toInteger (signed 64 value)
  | .string value =>
    .string (engine.newString (beforeZero (encodeUtf8
      (core.characters (core.fromUTF8String (engine.toCString value))))))
  | .array elements =>
    if StoredAsList engine elements then .array (images elements)
    else lost core engine (fromJS core engine (.array elements))
  | .object _ => lost core engine core.newObject

def images : List (JSValue Str) → List (JSValue Str)
  | [] => []
  | item :: rest => image item :: images rest

end

mutual

/-- How deep arrays are nested in a value. -/
def depth : JSValue Str → ℕ
  | .array elements => depths elements + 1
  | _ => 0

def depths : List (JSValue Str) → ℕ
  | [] => 0
  | item :: rest => max (depth item) (depths rest)

end

end ClosedForm

variable {core : ProtoCore} {engine : Engine Str}

theorem length_fromItems (elements : List (JSValue Str)) :
    (fromItems core engine elements).length = elements.length := by
  induction elements with
  | nil => rfl
  | cons item rest ih => rw [fromItems, List.length_cons, List.length_cons, ih]

theorem isSparse_eq_false_iff {array : JSValue Str} {len : ℕ} :
    isSparse engine array len = false ↔ ∀ i < len, engine.hasProperty array i = true := by
  simp [isSparse]

theorem storeArray_of_list {elements : List (JSValue Str)} (stored : StoredAsList engine elements) :
    fromJS core engine (.array elements) =
      core.listAsObject ((fromItems core engine elements).foldl core.appendLast core.newList) := by
  have dense : isSparse engine (.array elements) elements.length = false :=
    isSparse_eq_false_iff.mpr stored.1
  have short : ¬10000 < elements.length := not_lt_of_ge stored.2
  rw [fromJS, storeArray, length_fromItems, if_neg (by simp [dense, short])]

theorem kind_of_not_list {elements : List (JSValue Str)}
    (sparse : ¬StoredAsList engine elements) :
    core.kind (fromJS core engine (.array elements)) = .other := by
  have stored : isSparse engine (.array elements) elements.length = true ∨
      10000 < elements.length := by
    by_contra neither
    rw [not_or, Bool.not_eq_true, isSparse_eq_false_iff, not_lt] at neither
    exact sparse neither
  rw [fromJS, storeArray, length_fromItems, if_pos stored, core.kind_sparseListAsObject]

theorem toJS_of_other {obj : core.Object} (kind : core.kind obj = .other) (fuel : ℕ) :
    toJS core engine (fuel + 1) obj = some (lost core engine obj) := by
  rw [toJS, kind]
  rfl

theorem toJS_listAsObject (items : List core.Object) (fuel : ℕ) :
    toJS core engine (fuel + 1) (core.listAsObject (items.foldl core.appendLast core.newList)) =
      (items.mapM (toJS core engine fuel)).map .array := by
  rw [toJS, core.kind_listAsObject]
  simp only [listItems_foldl, core.listItems_newList, List.nil_append]

theorem toJS_fromNumber (value : Number) (fuel : ℕ) :
    toJS core engine (fuel + 1) (fromNumber core value) =
      some (image core engine (.number value)) := by
  have double (number : Number) :
      toJS core engine (fuel + 1) (core.fromDouble number) = some (.number number) := by
    rw [toJS, core.kind_fromDouble]
    simp only [core.asDouble_fromDouble]
  cases value with
  | finite value =>
    rw [fromNumber, image]
    split
    · obtain ⟨low, high⟩ := longLong_mem value
      rw [toJS, core.kind_fromInteger]
      simp only [core.asLong_fromInteger _ low high]
    · exact double _
  | infinity negative => exact double _
  | nan => exact double _

mutual

/-- With more fuel than it is deep, a value comes back as its image. -/
theorem toJS_fromJS (value : JSValue Str) (fuel : ℕ) (enough : depth value < fuel) :
    toJS core engine fuel (fromJS core engine value) = some (image core engine value) := by
  obtain ⟨fuel, rfl⟩ : ∃ less, fuel = less + 1 := ⟨fuel - 1, by omega⟩
  cases value with
  | undefined | null =>
    rw [fromJS, toJS, core.kind_none]
    rfl
  | bool value =>
    rw [fromJS, toJS, core.kind_fromBoolean, image]
    simp only [core.asBoolean_fromBoolean]
  | number value =>
    rw [fromJS]
    exact toJS_fromNumber value fuel
  | bigint value =>
    rw [fromJS, toJS, core.kind_fromLong, image]
    simp only [core.asLong_fromLong _ le_signed signed_lt]
  | string value =>
    rw [fromJS, toJS, core.kind_fromUTF8String, image]
  | array elements =>
    rw [image]
    split
    · rename_i stored
      rw [depth] at enough
      rw [storeArray_of_list stored, toJS_listAsObject, mapM_fromItems elements fuel (by omega),
        Option.map_some]
    · rename_i sparse
      exact toJS_of_other (kind_of_not_list sparse) fuel
  | object type =>
    rw [fromJS, image]
    exact toJS_of_other core.kind_newObject fuel

theorem mapM_fromItems (items : List (JSValue Str)) (fuel : ℕ) (enough : depths items < fuel) :
    (fromItems core engine items).mapM (toJS core engine fuel) =
      some (images core engine items) := by
  cases items with
  | nil => rfl
  | cons item rest =>
    rw [depths] at enough
    rw [fromItems, List.mapM_cons, toJS_fromJS item fuel (by omega),
      mapM_fromItems rest fuel (by omega), images]
    rfl

end

theorem returns_iff_image {value result : JSValue Str} :
    Returns core engine value result ↔ result = image core engine value := by
  have returned : Returns core engine value (image core engine value) :=
    ⟨depth value + 1, toJS_fromJS value _ (Nat.lt_succ_self _)⟩
  exact ⟨fun again => again.unique returned, fun same => same ▸ returned⟩

theorem forall₂_images (elements : List (JSValue Str)) :
    List.Forall₂ (Returns core engine) elements (images core engine elements) := by
  induction elements with
  | nil => exact .nil
  | cons item rest ih => exact .cons (returns_iff_image.mpr rfl) ih

/-- An array comes back as an array of what its elements come back as. -/
def ArraySurvives (core : ProtoCore) (engine : Engine Str) (elements : List (JSValue Str)) : Prop :=
  ∃ results, Returns core engine (.array elements) (.array results) ∧
    List.Forall₂ (Returns core engine) elements results

theorem arraySurvives_iff {elements : List (JSValue Str)} :
    ArraySurvives core engine elements ↔ StoredAsList engine elements := by
  constructor
  · rintro ⟨results, returned, -⟩
    by_contra sparse
    have image := returns_iff_image.mp returned
    rw [TypeBridge.image, if_neg sparse, lost] at image
    cases image
  · intro stored
    refine ⟨images core engine elements, ?_, forall₂_images elements⟩
    rw [returns_iff_image, image, if_pos stored]

/-- The first value is the second, or an element of it at some depth. -/
inductive Nested : JSValue Str → JSValue Str → Prop where
  | self (value : JSValue Str) : Nested value value
  | element {inner item : JSValue Str} {elements : List (JSValue Str)} (member : item ∈ elements)
      (nested : Nested inner item) : Nested inner (.array elements)

/-- An array survives, with every array in it, exactly when each of them has at most 10000
elements and has properties at all its indices. -/
theorem arrays_survive_iff (core : ProtoCore) (engine : Engine Str)
    (elements : List (JSValue Str)) :
    (∀ inner, Nested (.array inner) (.array elements) → ArraySurvives core engine inner) ↔
      ∀ inner, Nested (.array inner) (.array elements) →
        (∀ i < inner.length, engine.hasProperty (.array inner) i = true) ∧
          inner.length ≤ 10000 := by
  simp only [arraySurvives_iff]
  exact Iff.rfl

/-- 10001 times null does not come back as an array. -/
theorem not_arraySurvives_long :
    ¬ArraySurvives .terms .lossy (List.replicate 10001 .null) := by
  rw [arraySurvives_iff]
  rintro ⟨-, short⟩
  rw [List.length_replicate] at short
  exact absurd short (by norm_num)

end ProtoJS.Bridge.TypeBridge
