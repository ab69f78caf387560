import ProtoJS.Machine.Words
import ProtoJS.Strings.CString

/-! # The type bridge

`TypeBridge::fromJS` turns JavaScript values into objects of protoCore and `TypeBridge::toJS` turns
objects back. The engine and protoCore are given by what the bridge calls: what protoCore stores it
returns, and an object is of the kind it was made as.
-/

namespace ProtoJS.Bridge

open Words Strings

/-- The value of a double; both zeros are 0. -/
inductive Number where
  | finite (value : ℚ)
  | infinity (negative : Bool)
  | nan
deriving DecidableEq

/-- JavaScript values: the ones the bridge converts in depth. An array is dense; of other objects
only a `_type` property is kept. -/
inductive JSValue (Str : Type) where
  | undefined
  | null
  | bool (value : Bool)
  | number (value : Number)
  | bigint (value : ℤ)
  | string (value : Str)
  | array (elements : List (JSValue Str))
  | object (type : Option Str)

/-- What the bridge calls in QuickJS. -/
structure Engine (Str : Type) where
  /-- The bytes of `JS_ToCString` up to the terminating zero. -/
  toCString : Str → List UInt8
  /-- `JS_NewString`. -/
  newString : List UInt8 → Str
  /-- `JS_HasProperty(ctx, val, i)`: the index stands where the engine takes an atom. -/
  hasProperty : JSValue Str → ℕ → Bool

/-- The kinds that protoCore's `is…` and `as…` functions tell apart, in the order in which `toJS`
asks for them. -/
inductive Kind where
  | none
  | boolean
  | integer
  | double
  | string
  | list
  | tuple
  | set
  | other
deriving DecidableEq, Repr

/-- What the bridge calls in protoCore. -/
structure ProtoCore where
  Object : Type
  kind : Object → Kind
  /-- `PROTO_NONE`. -/
  none : Object
  fromBoolean : Bool → Object
  asBoolean : Object → Bool
  fromInteger : ℤ → Object
  fromLong : ℤ → Object
  asLong : Object → ℤ
  fromDouble : Number → Object
  asDouble : Object → Number
  fromUTF8String : List UInt8 → Object
  /-- The characters of a string, one `unsigned int` each. -/
  characters : Object → List UInt32
  ProtoList : Type
  newList : ProtoList
  appendLast : ProtoList → Object → ProtoList
  listAsObject : ProtoList → Object
  /-- The items of an object that is a list. -/
  listItems : Object → List Object
  tupleItems : Object → List Object
  ProtoSparseList : Type
  newSparseList : ProtoSparseList
  setAt : ProtoSparseList → ℕ → Object → ProtoSparseList
  sparseListAsObject : ProtoSparseList → Object
  newObject : Object
  isCell : Object → Bool
  kind_none : kind none = .none
  kind_fromBoolean : ∀ b, kind (fromBoolean b) = .boolean
  asBoolean_fromBoolean : ∀ b, asBoolean (fromBoolean b) = b
  kind_fromInteger : ∀ v, kind (fromInteger v) = .integer
  asLong_fromInteger : ∀ v, -2 ^ 63 ≤ v → v < 2 ^ 63 → asLong (fromInteger v) = v
  kind_fromLong : ∀ v, kind (fromLong v) = .integer
  asLong_fromLong : ∀ v, -2 ^ 63 ≤ v → v < 2 ^ 63 → asLong (fromLong v) = v
  kind_fromDouble : ∀ d, kind (fromDouble d) = .double
  asDouble_fromDouble : ∀ d, asDouble (fromDouble d) = d
  kind_fromUTF8String : ∀ bytes, kind (fromUTF8String bytes) = .string
  kind_listAsObject : ∀ list, kind (listAsObject list) = .list
  listItems_newList : listItems (listAsObject newList) = []
  listItems_appendLast : ∀ list item,
    listItems (listAsObject (appendLast list item)) = listItems (listAsObject list) ++ [item]
  kind_sparseListAsObject : ∀ list, kind (sparseListAsObject list) = .other
  kind_newObject : kind newObject = .other

/-- The objects of protoCore as terms. -/
inductive Term where
  | none
  | boolean (value : Bool)
  | integer (value : ℤ)
  | double (value : Number)
  | string (bytes : List UInt8)
  | list (items : List Term)
  | sparseList (items : List (ℕ × Term))
  | object

def Term.kind : Term → Kind
  | none => .none
  | boolean _ => .boolean
  | integer _ => .integer
  | double _ => .double
  | string _ => .string
  | list _ => .list
  | sparseList _ => .other
  | object => .other

def Term.items : Term → List Term
  | list items => items
  | _ => []

/-- A protoCore there is. -/
def ProtoCore.terms : ProtoCore where
  Object := Term
  kind := Term.kind
  none := .none
  fromBoolean := .boolean
  asBoolean
    | .boolean value => value
    | _ => false
  fromInteger := .integer
  fromLong := .integer
  asLong
    | .integer value => value
    | _ => 0
  fromDouble := .double
  asDouble
    | .double value => value
    | _ => .nan
  fromUTF8String := .string
  characters
    | .string bytes => (lossyChars bytes.length bytes).map Char.val
    | _ => []
  ProtoList := List Term
  newList := []
  appendLast items item := items ++ [item]
  listAsObject := .list
  listItems := Term.items
  tupleItems _ := []
  ProtoSparseList := List (ℕ × Term)
  newSparseList := []
  setAt items index item := (index, item) :: items
  sparseListAsObject := .sparseList
  newObject := .object
  isCell
    | .sparseList _ => true
    | .object => true
    | _ => false
  kind_none := rfl
  kind_fromBoolean _ := rfl
  asBoolean_fromBoolean _ := rfl
  kind_fromInteger _ := rfl
  asLong_fromInteger _ _ _ := rfl
  kind_fromLong _ := rfl
  asLong_fromLong _ _ _ := rfl
  kind_fromDouble _ := rfl
  asDouble_fromDouble _ := rfl
  kind_fromUTF8String _ := rfl
  kind_listAsObject _ := rfl
  listItems_newList := rfl
  listItems_appendLast _ _ := rfl
  kind_sparseListAsObject _ := rfl
  kind_newObject := rfl

/-- An engine that answers for the indices of an array. -/
def Engine.lossy : Engine String where
  toCString := Strings.toCString
  newString := Decoder.lossy.newString
  hasProperty
    | .array elements, i => i < elements.length
    | _, _ => false

variable {Str : Type}

/-- `(long long)d`; out of range it is the indefinite integer of x86-64. -/
def longLong (value : ℚ) : ℤ :=
  let truncated := if 0 ≤ value then ⌊value⌋ else ⌈value⌉
  if -2 ^ 63 ≤ truncated ∧ truncated < 2 ^ 63 then truncated else -2 ^ 63

/-- `static_cast<char>(mark | (unicodeChar >> shift))`. -/
def leadByte (mark unicodeChar shift : UInt32) : UInt8 := (mark ||| (unicodeChar >>> shift)).toUInt8

/-- `static_cast<char>(0x80 | ((unicodeChar >> shift) & 0x3F))`. -/
def continuationByte (unicodeChar shift : UInt32) : UInt8 :=
  ((0x80 : UInt32) ||| ((unicodeChar >>> shift) &&& 0x3F)).toUInt8

/-- One turn of the encoding loop of `toJS`. -/
def encodeCharacter (unicodeChar : UInt32) : List UInt8 :=
  if unicodeChar < 0x80 then [unicodeChar.toUInt8]
  else if unicodeChar < 0x800 then
    [leadByte 0xC0 unicodeChar 6, continuationByte unicodeChar 0]
  else if unicodeChar < 0x10000 then
    [leadByte 0xE0 unicodeChar 12, continuationByte unicodeChar 6, continuationByte unicodeChar 0]
  else
    [leadByte 0xF0 unicodeChar 18, continuationByte unicodeChar 12,
      continuationByte unicodeChar 6, continuationByte unicodeChar 0]

def encodeUtf8 (characters : List UInt32) : List UInt8 := characters.flatMap encodeCharacter

namespace TypeBridge

variable (core : ProtoCore) (engine : Engine Str)

def fromNumber : Number → core.Object
  | .finite value =>
    if value = longLong value then core.fromInteger (longLong value)
    else core.fromDouble (.finite value)
  | number => core.fromDouble number

/-- Some index of the array has no property. -/
def isSparse (array : JSValue Str) (len : ℕ) : Bool :=
  (List.range len).any fun i => !engine.hasProperty array i

/-- The items that are there, at their indices. -/
def storeSparse (array : JSValue Str) (items : List core.Object) : core.ProtoSparseList :=
  items.zipIdx.foldl (fun list (item, i) =>
    if engine.hasProperty array i then core.setAt list i item else list) core.newSparseList

def storeArray (array : JSValue Str) (items : List core.Object) : core.Object :=
  if isSparse engine array items.length ∨ 10000 < items.length then
    core.sparseListAsObject (storeSparse core engine array items)
  else core.listAsObject (items.foldl core.appendLast core.newList)

mutual

/-- A BigInt is reduced to 64 bits by `JS_ToBigInt64`. -/
def fromJS : JSValue Str → core.Object
  | .undefined => core.none
  | .null => core.none
  | .bool value => core.fromBoolean value
  | .number value => fromNumber core value
  | .bigint value => core.fromLong (signed 64 value)
  | .string value => core.fromUTF8String (engine.toCString value)
  | .array elements => storeArray core engine (.array elements) (fromItems elements)
  | .object _ => core.newObject

def fromItems : List (JSValue Str) → List core.Object
  | [] => []
  | item :: rest => fromJS item :: fromItems rest

end

/-- A number when it fits into 32 bits, and a BigInt otherwise. -/
def toInteger (val : ℤ) : JSValue Str :=
  if -2 ^ 31 ≤ val ∧ val ≤ 2 ^ 31 - 1 then .number (.finite val) else .bigint val

/-- The fuel bounds the depth of the recursion. A set and a sparse list have lost their items. -/
def toJS : ℕ → core.Object → Option (JSValue Str)
  | 0, _ => none
  | fuel + 1, obj =>
    match core.kind obj with
    | .none => some .null
    | .boolean => some (.bool (core.asBoolean obj))
    | .integer => some (toInteger (core.asLong obj))
    | .double => some (.number (core.asDouble obj))
    | .string =>
      some (.string (engine.newString (beforeZero (encodeUtf8 (core.characters obj)))))
    | .list => ((core.listItems obj).mapM (toJS fuel)).map .array
    | .tuple => ((core.tupleItems obj).mapM (toJS fuel)).map .array
    | .set => some (.array [])
    | .other =>
      some (.object (if core.isCell obj then none else engine.newString (utf8 "ProtoObject")))

/-- The value comes back as the result. -/
def Returns (value result : JSValue Str) : Prop :=
  ∃ fuel, toJS core engine fuel (fromJS core engine value) = some result

variable {core : ProtoCore} {engine : Engine Str}

theorem longLong_intCast {n : ℤ} (low : -2 ^ 63 ≤ n) (high : n < 2 ^ 63) : longLong n = n := by
  unfold longLong
  simp only [Int.floor_intCast, Int.ceil_intCast, ite_self]
  exact if_pos ⟨low, high⟩

theorem longLong_mem (value : ℚ) : -2 ^ 63 ≤ longLong value ∧ longLong value < 2 ^ 63 := by
  unfold longLong
  generalize (if 0 ≤ value then ⌊value⌋ else ⌈value⌉) = truncated
  simp only
  split_ifs with fits
  · exact fits
  · norm_num

/-- Everything that is appended is there, in order. -/
theorem listItems_foldl (items : List core.Object) (list : core.ProtoList) :
    core.listItems (core.listAsObject (items.foldl core.appendLast list)) =
      core.listItems (core.listAsObject list) ++ items := by
  induction items generalizing list with
  | nil => rw [List.foldl_nil, List.append_nil]
  | cons item rest ih =>
    rw [List.foldl_cons, ih, core.listItems_appendLast, List.append_assoc, List.singleton_append]

theorem mapM_eq_some_iff {α β : Type*} {f : α → Option β} {items : List α} {results : List β} :
    items.mapM f = some results ↔ List.Forall₂ (fun item result => f item = some result) items
      results := by
  induction items generalizing results with
  | nil => simp [eq_comm]
  | cons item rest ih =>
    rw [List.mapM_cons, List.forall₂_cons_left_iff]
    simp only [bind, Option.bind_eq_some_iff, pure, Option.some_inj, ih]
    constructor
    · rintro ⟨first, converted, others, remaining, rfl⟩
      exact ⟨first, others, converted, remaining, rfl⟩
    · rintro ⟨first, others, converted, remaining, rfl⟩
      exact ⟨first, converted, others, remaining, rfl⟩

/-- More fuel does not change a result. -/
theorem toJS_succ {fuel : ℕ} {obj : core.Object} {result : JSValue Str}
    (returned : toJS core engine fuel obj = some result) :
    toJS core engine (fuel + 1) obj = some result := by
  induction fuel generalizing obj result with
  | zero => cases returned
  | succ fuel ih =>
    have items {objects : List core.Object} {results : List (JSValue Str)}
        (converted : objects.mapM (toJS core engine fuel) = some results) :
        objects.mapM (toJS core engine (fuel + 1)) = some results :=
      mapM_eq_some_iff.mpr ((mapM_eq_some_iff.mp converted).imp fun _ _ => ih)
    rw [toJS] at returned ⊢
    rcases kind : core.kind obj <;> simp only [kind] at returned ⊢
    case list =>
      obtain ⟨results, converted, rfl⟩ := Option.map_eq_some_iff.mp returned
      rw [items converted, Option.map_some]
    case tuple =>
      obtain ⟨results, converted, rfl⟩ := Option.map_eq_some_iff.mp returned
      rw [items converted, Option.map_some]
    all_goals exact returned

theorem toJS_mono {fuel more : ℕ} (le : fuel ≤ more) {obj : core.Object} {result : JSValue Str}
    (returned : toJS core engine fuel obj = some result) :
    toJS core engine more obj = some result :=
  Nat.le_induction returned (fun _ _ => toJS_succ) more le

/-- A value comes back as one result only. -/
theorem Returns.unique {value first second : JSValue Str} (one : Returns core engine value first)
    (other : Returns core engine value second) : first = second := by
  obtain ⟨fuel, returned⟩ := one
  obtain ⟨more, again⟩ := other
  have same := (toJS_mono (le_max_left fuel more) returned).symm.trans
    (toJS_mono (le_max_right fuel more) again)
  exact Option.some_inj.mp same

/-- An object that is no list comes back in one step. -/
theorem returns_iff {value returned : JSValue Str} (result : JSValue Str)
    (oneStep : toJS core engine 1 (fromJS core engine value) = some returned) :
    Returns core engine value result ↔ result = returned :=
  ⟨fun again => again.unique ⟨1, oneStep⟩, fun same => same ▸ ⟨1, oneStep⟩⟩

end TypeBridge

end ProtoJS.Bridge
