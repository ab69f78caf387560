import ProtoJS.Bridge.TypeBridgeNumbers
import ProtoJS.Bridge.TypeBridgeStrings
import ProtoJS.Stores.GCBridgeConsistency

/-! # Properties that protoCore keeps

`ExecutionEngine` reads and writes the properties of a JS object in the ProtoObject that the bridge
maps it to, and leaves the other objects to QuickJS. ProtoObjects are immutable by default, so a
write maps the JS object to another one. Null becomes `PROTO_NONE`, which also stands for a missing
attribute, and names are C strings, so a name ends at its first U+0000.
-/

namespace ProtoJS.ExecutionEngine

open Bridge (ProtoCore Engine ReadsTexts TypeBridge.fromJS TypeBridge.toJS)

/-- The values of properties. -/
abbrev Value := Bridge.JSValue String

/-- What the engine calls in QuickJS, in protoCore and in the bridge. QuickJS has states `κ` and
atoms `ν`; ProtoObjects that are not immutable may change on a heap `μ`. -/
structure Platform (δ χ η μ κ ν : Type) where
  core : ProtoCore
  engine : Engine String
  bridge : GCBridge.Core core.Object δ χ η
  /-- The bytes of `JS_AtomToCString` up to the terminating zero. -/
  atomToCString : ν → Option (List UInt8)
  /-- `JS_GetProperty`; `none` is an exception. -/
  getProperty : κ → GCBridge.JSValue → ν → Option Value × κ
  /-- `JS_SetProperty`. -/
  setProperty : κ → GCBridge.JSValue → ν → Value → ℤ × κ
  getAttribute : μ → core.Object → core.Object → Option core.Object
  setAttribute : μ → core.Object → core.Object → core.Object → Option core.Object × μ

structure State (π δ χ η μ κ : Type) where
  bridge : GCBridge.State π δ χ η
  heap : μ
  quickJS : κ

section Operations

variable {δ χ η μ κ ν α : Type} (platform : Platform δ χ η μ κ ν) (kind : MutexKind)

abbrev Platform.State := ExecutionEngine.State platform.core.Object δ χ η μ κ

/-- A call of the bridge. -/
def inBridge (call : GCBridge.BridgeCall platform.core.Object δ χ η α) :
    Call platform.State α := fun held s =>
  (call held s.bridge).map fun answer => (answer.1, { s with bridge := answer.2 })

def jsGetProperty (obj : GCBridge.JSValue) (prop : ν) : Call platform.State (Option Value) :=
  fun _ s =>
    let answer := platform.getProperty s.quickJS obj prop
    some (answer.1, { s with quickJS := answer.2 })

def jsSetProperty (obj : GCBridge.JSValue) (prop : ν) (val : Value) : Call platform.State ℤ :=
  fun _ s =>
    let answer := platform.setProperty s.quickJS obj prop val
    some (answer.1, { s with quickJS := answer.2 })

def protoSetAttribute (protoObj propStr valObj : platform.core.Object) :
    Call platform.State (Option platform.core.Object) := fun _ s =>
  let answer := platform.setAttribute s.heap protoObj propStr valObj
  some (answer.1, { s with heap := answer.2 })

/-- The conversion of an attribute that is there. -/
def protoToJS (fuel : ℕ) (attr : platform.core.Object) : Call platform.State (Option Value) :=
  fun _ s => (TypeBridge.toJS platform.core platform.engine fuel attr).map fun result =>
    (some result, s)

variable [DecidableEq platform.core.Object] [DecidableEq χ] [DecidableEq η]

def shouldUseProtoCore (ctx : χ) (obj : GCBridge.JSValue) : Call platform.State Bool := do
  let protoObj ← inBridge platform (GCBridge.getProtoObject platform.bridge kind obj ctx)
  pure protoObj.isSome

/-- The fuel bounds the depth of the value that is read. -/
def opGetProperty (fuel : ℕ) (ctx : χ) (obj : GCBridge.JSValue) (prop : ν) :
    Call platform.State (Option Value) := do
  if platform.bridge.hasProtoContext ctx then
    if ← shouldUseProtoCore platform kind ctx obj then
      match ← inBridge platform (GCBridge.getProtoObject platform.bridge kind obj ctx) with
      | some protoObj =>
        match platform.atomToCString prop with
        | some propName =>
          let propStr := platform.core.fromUTF8String propName
          let attr := platform.getAttribute (← Call.get).heap protoObj propStr
          match platform.bridge.present attr with
          | some attr => protoToJS platform fuel attr
          | none => jsGetProperty platform obj prop
        | none => jsGetProperty platform obj prop
      | none => jsGetProperty platform obj prop
    else jsGetProperty platform obj prop
  else jsGetProperty platform obj prop

/-- The address and the time are what the allocator and the clock answer to the bridge. -/
def opSetProperty (stack : ℕ) (address : GCBridge.Pointer) (now : δ) (ctx : χ)
    (obj : GCBridge.JSValue) (prop : ν) (val : Value) : Call platform.State ℤ := do
  if platform.bridge.hasProtoContext ctx then
    if ← shouldUseProtoCore platform kind ctx obj then
      match ← inBridge platform (GCBridge.getProtoObject platform.bridge kind obj ctx) with
      | some protoObj =>
        match platform.atomToCString prop with
        | some propName =>
          let propStr := platform.core.fromUTF8String propName
          let valObj := TypeBridge.fromJS platform.core platform.engine val
          let newObj ← protoSetAttribute platform protoObj propStr valObj
          if newObj ≠ some protoObj then
            inBridge platform
              (GCBridge.registerMapping platform.bridge kind address now obj newObj ctx stack)
          pure 0
        | none => jsSetProperty platform obj prop val
      | none => jsSetProperty platform obj prop val
    else jsSetProperty platform obj prop val
  else jsSetProperty platform obj prop val

end Operations

/-- What the calls are known to do: the keys of the bridge do not collide, a property name has a C
string and gives its attribute a name of its own, and an attribute is set in an object that keeps
the others. -/
structure Platform.Lawful {δ χ η μ κ ν : Type} (platform : Platform δ χ η μ κ ν)
    (decoder : Strings.Decoder) : Prop where
  texts : ReadsTexts platform.core platform.engine decoder
  protoNone : platform.bridge.protoNone = some platform.core.none
  collisionless : platform.bridge.Collisionless
  named : ∀ prop, ∃ propName, platform.atomToCString prop = some propName
  apart : ∀ prop other propName otherName, platform.atomToCString prop = some propName →
    platform.atomToCString other = some otherName →
    platform.core.fromUTF8String propName = platform.core.fromUTF8String otherName →
    propName = otherName
  setAttribute : ∀ heap protoObj propName valObj, ∃ newObj later,
    platform.setAttribute heap protoObj (platform.core.fromUTF8String propName) valObj =
      (some newObj, later) ∧
    newObj ≠ platform.core.none ∧
    platform.getAttribute later newObj (platform.core.fromUTF8String propName) = some valObj ∧
    ∀ other, platform.core.fromUTF8String other ≠ platform.core.fromUTF8String propName →
      platform.getAttribute later newObj (platform.core.fromUTF8String other) =
        platform.getAttribute heap protoObj (platform.core.fromUTF8String other)

/-- Null, a boolean, a 32-bit integer or a text without U+0000. -/
def Storable : Value → Prop
  | .null => True
  | .bool _ => True
  | .number number => ∃ n : ℤ, number = .finite n ∧ -2 ^ 31 ≤ n ∧ n ≤ 2 ^ 31 - 1
  | .string text => '\x00' ∉ text.toList
  | _ => False

section Values

variable {core : ProtoCore} {engine : Engine String} {decoder : Strings.Decoder} {val : Value}

/-- A value of these comes back across the type bridge. -/
theorem Storable.returns (storable : Storable val) (reads : ReadsTexts core engine decoder) :
    Bridge.TypeBridge.Returns core engine val val := by
  cases val with
  | null => exact ⟨1, by rw [TypeBridge.fromJS, TypeBridge.toJS, core.kind_none]⟩
  | bool value =>
    refine ⟨1, ?_⟩
    rw [TypeBridge.fromJS, TypeBridge.toJS, core.kind_fromBoolean]
    simp only [core.asBoolean_fromBoolean]
  | number number =>
    obtain ⟨n, rfl, low, high⟩ := storable
    refine ⟨1, ?_⟩
    rw [Bridge.TypeBridge.fromJS_integer (by omega) (by omega),
      Bridge.TypeBridge.toJS_fromInteger (by omega) (by omega), Bridge.TypeBridge.toInteger,
      if_pos ⟨low, high⟩]
  | string text =>
    apply (Bridge.TypeBridge.returns_string_iff reads text _).2
    rw [Strings.beforeNul_eq_self_iff.2 storable]
  | _ => cases storable

/-- Only null becomes `PROTO_NONE`. -/
theorem Storable.fromJS_eq_none_iff (storable : Storable val) :
    TypeBridge.fromJS core engine val = core.none ↔ val = .null := by
  constructor
  · intro same
    have kind := congrArg core.kind same
    rw [core.kind_none] at kind
    cases val with
    | null => rfl
    | bool value =>
      rw [TypeBridge.fromJS, core.kind_fromBoolean] at kind
      cases kind
    | number number =>
      obtain ⟨n, rfl, low, high⟩ := storable
      rw [Bridge.TypeBridge.fromJS_integer (by omega) (by omega), core.kind_fromInteger] at kind
      cases kind
    | string text =>
      rw [TypeBridge.fromJS, core.kind_fromUTF8String] at kind
      cases kind
    | _ => cases storable
  · rintro rfl
    rw [TypeBridge.fromJS]

end Values

section Calls

variable {δ χ η μ κ ν : Type} {platform : Platform δ χ η μ κ ν} {decoder : Strings.Decoder}
  [DecidableEq platform.core.Object] [DecidableEq χ] [DecidableEq η]
  {s t : platform.State} {ctx : χ} {obj : GCBridge.JSValue} {prop : ν} {val : Value}
  {protoObj object : platform.core.Object} {propName : List UInt8} {stack fuel : ℕ}
  {address : GCBridge.Pointer} {now : δ}

omit [DecidableEq χ] [DecidableEq η] in
theorem Platform.Lawful.present_eq (lawful : platform.Lawful decoder)
    (object : platform.core.Object) : platform.bridge.present (some object) =
      if object = platform.core.none then none else some object := by
  simp only [GCBridge.Core.present, lawful.protoNone, Option.some_inj]

/-- The ProtoObject that the JS object is mapped to. -/
def protoObjectOf (platform : Platform δ χ η μ κ ν) [DecidableEq platform.core.Object]
    (s : platform.State) (obj : GCBridge.JSValue) (ctx : χ) : Option platform.core.Object :=
  s.bridge.protoObjectOf platform.bridge obj ctx

/-- A JS object is mapped in a context with a ProtoContext only. -/
theorem hasProtoContext_of_mapped (mapped : protoObjectOf platform s obj ctx = some protoObj) :
    platform.bridge.hasProtoContext ctx = true := by
  rw [protoObjectOf, GCBridge.State.protoObjectOf, Option.ite_none_right_eq_some] at mapped
  exact mapped.1

theorem getProtoObject_eq (platform : Platform δ χ η μ κ ν) [DecidableEq platform.core.Object]
    (s : platform.State) (obj : GCBridge.JSValue) (ctx : χ) :
    inBridge platform (GCBridge.getProtoObject platform.bridge .recursive obj ctx) 0 s =
      some (protoObjectOf platform s obj ctx, s) := by
  rw [inBridge, GCBridge.getProtoObject_apply]
  rfl

/-- The bridge maps the JS object to the object that is registered. -/
theorem protoObjectOf_registerMapping {core : GCBridge.Core platform.core.Object δ χ η}
    {bridge later : GCBridge.State platform.core.Object δ χ η}
    (collisionless : core.Collisionless) (active : obj.isNullish = false)
    (context : core.hasProtoContext ctx = true) (object : platform.core.Object)
    (returned : GCBridge.registerMapping core .recursive address now obj (some object) ctx stack
      0 bridge = some ((), later)) :
    later.protoObjectOf core obj ctx = core.present (some object) := by
  have accepted : core.accepted obj (some object) ctx = some object := if_pos ⟨active, context⟩
  rcases GCBridge.registerMapping_cases returned with ⟨taken, same, rfl⟩ | ⟨_, refused⟩
  · rw [accepted] at same
    cases same
    rw [GCBridge.State.protoObjectOf, if_pos context, GCBridge.State.entry,
      GCBridge.getContextMappings_setMappings]
    change GCBridge.references core _ _ = _
    rw [GCBridge.references_registered, if_pos rfl, GCBridge.Core.registeredReference,
      if_neg (collisionless.apart _ _).symm]
  · rw [accepted] at refused
    cases refused

/-- A write to a mapped object sets the attribute, and maps the object to a result that is another
ProtoObject. -/
theorem opSetProperty_eq (mapped : protoObjectOf platform s obj ctx = some protoObj)
    (name : platform.atomToCString prop = some propName) {newObj : Option platform.core.Object}
    {later : μ} (answer : platform.setAttribute s.heap protoObj
      (platform.core.fromUTF8String propName)
      (TypeBridge.fromJS platform.core platform.engine val) = (newObj, later)) :
    opSetProperty platform .recursive stack address now ctx obj prop val 0 s =
      if newObj = some protoObj then some (0, { s with heap := later })
      else (GCBridge.registerMapping platform.bridge .recursive address now obj newObj ctx stack 0
        s.bridge).map fun answer => (0, ⟨answer.2, later, s.quickJS⟩) := by
  have context := hasProtoContext_of_mapped mapped
  simp only [opSetProperty, context, if_true, shouldUseProtoCore, Call.bind_apply,
    getProtoObject_eq, mapped, Option.bind_some, Call.pure_apply, Option.isSome_some, name,
    protoSetAttribute, answer]
  by_cases same : newObj = some protoObj
  · simp only [same, ne_eq, not_true_eq_false, if_false, if_true, Call.pure_apply]
  · simp only [same, ne_eq, not_false_eq_true, if_false, if_true, inBridge, Call.bind_apply,
      Call.pure_apply]
    cases GCBridge.registerMapping platform.bridge .recursive address now obj newObj ctx stack 0
      s.bridge <;> rfl

/-- Afterwards the object is mapped to what `setAttribute` has answered. -/
theorem opSetProperty_mapped (lawful : platform.Lawful decoder) (active : obj.isNullish = false)
    (mapped : protoObjectOf platform s obj ctx = some protoObj)
    (name : platform.atomToCString prop = some propName) {newObj : platform.core.Object}
    {later : μ} (answer : platform.setAttribute s.heap protoObj
      (platform.core.fromUTF8String propName)
      (TypeBridge.fromJS platform.core platform.engine val) = (some newObj, later))
    (present : newObj ≠ platform.core.none) {result : ℤ}
    (returned : opSetProperty platform .recursive stack address now ctx obj prop val 0 s =
      some (result, t)) :
    protoObjectOf platform t obj ctx = some newObj ∧ t.heap = later ∧ t.quickJS = s.quickJS := by
  rw [opSetProperty_eq mapped name answer] at returned
  by_cases same : newObj = protoObj
  · rw [if_pos (congrArg some same)] at returned
    cases returned
    exact ⟨mapped.trans (congrArg some same.symm), rfl, rfl⟩
  · rw [if_neg (mt Option.some_inj.1 same), Option.map_eq_some_iff] at returned
    obtain ⟨⟨⟨⟩, bridge⟩, registered, ⟨⟩⟩ := returned
    refine ⟨?_, rfl, rfl⟩
    rw [protoObjectOf, protoObjectOf_registerMapping lawful.collisionless active
      (hasProtoContext_of_mapped mapped) newObj registered, lawful.present_eq, if_neg present]

/-- A write to a mapped object returns 0. -/
theorem opSetProperty_returns (lawful : platform.Lawful decoder) (active : obj.isNullish = false)
    (mapped : protoObjectOf platform s obj ctx = some protoObj) :
    ∃ t, opSetProperty platform .recursive (stack + 2) address now ctx obj prop val 0 s =
      some (0, t) := by
  obtain ⟨propName, name⟩ := lawful.named prop
  obtain ⟨newObj, later, answer, -⟩ := lawful.setAttribute s.heap protoObj propName
    (TypeBridge.fromJS platform.core platform.engine val)
  rw [opSetProperty_eq mapped name answer]
  by_cases same : newObj = protoObj
  · exact ⟨_, if_pos (congrArg some same)⟩
  · rw [if_neg (mt Option.some_inj.1 same),
      GCBridge.registerMapping_eq active (hasProtoContext_of_mapped mapped)]
    exact ⟨_, rfl⟩

/-- What is read of a mapped object is its attribute, where there is one. -/
theorem opGetProperty_mapped (mapped : protoObjectOf platform s obj ctx = some protoObj)
    (name : platform.atomToCString prop = some propName) :
    opGetProperty platform .recursive fuel ctx obj prop 0 s =
      match platform.bridge.present
        (platform.getAttribute s.heap protoObj (platform.core.fromUTF8String propName)) with
      | some attr => protoToJS platform fuel attr 0 s
      | none => jsGetProperty platform obj prop 0 s := by
  have context := hasProtoContext_of_mapped mapped
  simp only [opGetProperty, context, if_true, shouldUseProtoCore, Call.bind_apply,
    getProtoObject_eq, mapped, Option.bind_some, Call.pure_apply, Option.isSome_some, name,
    Call.get_apply]
  cases platform.bridge.present _ <;> rfl

/-- Reading the property gives the value. -/
def Reads (platform : Platform δ χ η μ κ ν) [DecidableEq platform.core.Object]
    (ctx : χ) (obj : GCBridge.JSValue) (s : platform.State) (prop : ν) (value : Value) : Prop :=
  ∃ fuel t, opGetProperty platform .recursive fuel ctx obj prop 0 s = some (some value, t)

/-- What is read where a value is stored: the value, but for null what QuickJS has. -/
def Shown (own : Option Value) : Value → Value → Prop
  | .null, value => own = some value
  | stored, value => stored = value

/-- A stored value is read as it is, unless it is null. -/
theorem reads_iff (lawful : platform.Lawful decoder)
    (mapped : protoObjectOf platform s obj ctx = some protoObj)
    (name : platform.atomToCString prop = some propName) {stored value : Value}
    (storable : Storable stored)
    (held : platform.getAttribute s.heap protoObj (platform.core.fromUTF8String propName) =
      some (TypeBridge.fromJS platform.core platform.engine stored)) :
    Reads platform ctx obj s prop value ↔
      Shown (platform.getProperty s.quickJS obj prop).1 stored value := by
  by_cases null : stored = .null
  · have absent : platform.bridge.present (platform.getAttribute s.heap protoObj
        (platform.core.fromUTF8String propName)) = none := by
      rw [held, lawful.present_eq, if_pos (storable.fromJS_eq_none_iff.2 null)]
    simp only [Reads, opGetProperty_mapped mapped name, absent, jsGetProperty, Option.some_inj,
      Prod.mk.injEq, exists_const, exists_and_left, exists_eq', and_true, null, Shown]
  · have present : platform.bridge.present (platform.getAttribute s.heap protoObj
        (platform.core.fromUTF8String propName)) =
        some (TypeBridge.fromJS platform.core platform.engine stored) := by
      rw [held, lawful.present_eq, if_neg (mt storable.fromJS_eq_none_iff.1 null)]
    have shown : Shown (platform.getProperty s.quickJS obj prop).1 stored value ↔
        stored = value := by
      cases stored with
      | null => exact absurd rfl null
      | _ => rfl
    have returns := storable.returns lawful.texts
    rw [shown]
    simp only [Reads, opGetProperty_mapped mapped name, present, protoToJS, Option.map_eq_some_iff]
    constructor
    · rintro ⟨fuel, t, result, converted, ⟨⟩⟩
      exact returns.unique ⟨fuel, converted⟩
    · rintro rfl
      obtain ⟨fuel, converted⟩ := returns
      exact ⟨fuel, s, stored, converted, rfl⟩

/-- A call of `opSetProperty`. -/
structure Write (δ ν : Type) where
  stack : ℕ
  address : GCBridge.Pointer
  now : δ
  prop : ν
  val : Value

/-- Calls of `opSetProperty` on a JS object that return 0. -/
def writes (platform : Platform δ χ η μ κ ν) [DecidableEq platform.core.Object] (ctx : χ)
    (obj : GCBridge.JSValue) (start : platform.State) : Machine platform.State (Write δ ν) where
  initial := start
  Enabled s write := Storable write.val ∧ ∃ t,
    opSetProperty platform .recursive write.stack write.address write.now ctx obj write.prop
      write.val 0 s = some (0, t)
  next s write :=
    match opSetProperty platform .recursive write.stack write.address write.now ctx obj write.prop
        write.val 0 s with
    | some answer => answer.2
    | none => s

/-- The last value set for a property that meets a condition. -/
def lastSet (steps : List (Write δ ν)) (q : ν → Prop) [DecidablePred q] : Option Value :=
  (steps.filter fun write => q write.prop).getLast?.map Write.val

theorem lastSet_append_singleton (steps : List (Write δ ν)) (write : Write δ ν) (q : ν → Prop)
    [DecidablePred q] : lastSet (steps ++ [write]) q =
      if q write.prop then some write.val else lastSet steps q := by
  rw [lastSet, List.filter_append, List.filter_singleton]
  by_cases meets : q write.prop
  · simp [meets]
  · simp [meets, lastSet]

theorem exists_lastSet_iff {steps : List (Write δ ν)} {q : ν → Prop} [DecidablePred q] :
    (∃ value, lastSet steps q = some value) ↔ ∃ write ∈ steps, q write.prop := by
  rw [← Option.isSome_iff_exists, lastSet, Option.isSome_map, List.getLast?_isSome]
  simp

/-- What a run of writes leaves: the object is mapped to a ProtoObject in which every name has the
last value set under it, and QuickJS is as before. -/
structure Written (platform : Platform δ χ η μ κ ν) [DecidableEq platform.core.Object] (ctx : χ)
    (obj : GCBridge.JSValue) (start : platform.State) (steps : List (Write δ ν))
    (s : platform.State) (protoObj : platform.core.Object) : Prop where
  mapped : protoObjectOf platform s obj ctx = some protoObj
  quickJS : s.quickJS = start.quickJS
  stored : ∀ prop propName, platform.atomToCString prop = some propName →
    ∀ val ∈ lastSet steps (platform.atomToCString · = some propName), Storable val ∧
    platform.getAttribute s.heap protoObj (platform.core.fromUTF8String propName) =
      some (TypeBridge.fromJS platform.core platform.engine val)

theorem written_of_run (lawful : platform.Lawful decoder) (active : obj.isNullish = false)
    {start : platform.State} (mapped : protoObjectOf platform start obj ctx = some protoObj)
    {steps : List (Write δ ν)} (run : (writes platform ctx obj start).Run start steps s) :
    ∃ later, Written platform ctx obj start steps s later := by
  refine run.history (P := fun steps s => ∃ later, Written platform ctx obj start steps s later)
    ⟨protoObj, mapped, rfl, fun prop propName _ val set => ?_⟩ ?_
  · cases set
  · rintro steps s write _ ⟨storable, t, returned⟩ ⟨object, written⟩
    have next : (writes platform ctx obj start).next s write = t := by
      simp only [writes, returned]
    obtain ⟨propName, name⟩ := lawful.named write.prop
    obtain ⟨newObj, later, answer, present, set, others⟩ := lawful.setAttribute s.heap object
      propName (TypeBridge.fromJS platform.core platform.engine write.val)
    obtain ⟨remapped, changed, kept⟩ :=
      opSetProperty_mapped lawful active written.mapped name answer present returned
    rw [next]
    refine ⟨newObj, remapped, kept.trans written.quickJS, ?_⟩
    intro other otherName also val last
    simp only [lastSet_append_singleton, name, Option.some_inj] at last
    rw [changed]
    by_cases same : propName = otherName
    · rw [if_pos same] at last
      cases last
      exact ⟨storable, same ▸ set⟩
    · rw [if_neg same] at last
      obtain ⟨before, held⟩ := written.stored other otherName also val last
      refine ⟨before, (others otherName fun merged => same ?_).trans held⟩
      exact (lawful.apart other write.prop otherName propName also name merged).symm

/-- The last value set under the name of the property is shown as the one set for it. -/
def Survives (platform : Platform δ χ η μ κ ν) (obj : GCBridge.JSValue) (start : platform.State)
    (steps : List (Write δ ν)) (prop : ν) (value : Value) : Prop :=
  ∃ stored ∈ lastSet steps (platform.atomToCString · = platform.atomToCString prop),
    Shown (platform.getProperty start.quickJS obj prop).1 stored value

variable [DecidableEq ν]

/-- After any writes to a mapped object every property that was set has the value last set for it
exactly if, for each of them, the last value set under its C string is that value and not null, or
is null while QuickJS has the value. -/
theorem reads_all_iff (lawful : platform.Lawful decoder) (active : obj.isNullish = false)
    {start : platform.State} (mapped : (protoObjectOf platform start obj ctx).isSome = true)
    {steps : List (Write δ ν)} (run : (writes platform ctx obj start).Run start steps s) :
    (∀ prop, ∀ value ∈ lastSet steps (· = prop), Reads platform ctx obj s prop value) ↔
      ∀ prop, ∀ value ∈ lastSet steps (· = prop), Survives platform obj start steps prop value := by
  obtain ⟨protoObj, mapped⟩ := Option.isSome_iff_exists.1 mapped
  obtain ⟨later, written⟩ := written_of_run lawful active mapped run
  refine forall_congr' fun prop => forall₂_congr fun value set => ?_
  obtain ⟨propName, name⟩ := lawful.named prop
  obtain ⟨write, member, same⟩ := exists_lastSet_iff.1 ⟨value, set⟩
  obtain ⟨stored, last⟩ := exists_lastSet_iff
    (q := (platform.atomToCString · = some propName)) |>.2 ⟨write, member, same ▸ name⟩
  obtain ⟨storable, held⟩ := written.stored prop propName name stored last
  rw [reads_iff lawful written.mapped name storable held, written.quickJS]
  simp only [Survives, name, last, Option.mem_def, Option.some_inj, exists_eq_left']

end Calls

section Example

open Bridge (Term)

noncomputable instance : DecidableEq Term := Classical.decEq Term

/-- The attribute of an object that is the history of its attributes. -/
def attributeOf : Term → List UInt8 → Option Term
  | .sparseList [(0, former), (1, .string propName), (2, valObj)], name =>
    if propName = name then some valObj else attributeOf former name
  | _, _ => none

/-- Immutable objects, property names that are texts, and no properties in QuickJS. -/
def Platform.terms : Platform ℤ Unit (String ⊕ Term) Unit Unit String where
  core := .terms
  engine := .lossy
  bridge :=
    { protoNone := some .none
      stringHash := .inl
      objectHash := .inr
      hasProtoContext _ := true
      format := toString }
  atomToCString prop := some (Strings.toCString prop)
  getProperty _ _ _ := (some .undefined, ())
  setProperty _ _ _ _ := (1, ())
  getAttribute _ protoObj propStr :=
    match propStr with
    | .string propName => attributeOf protoObj propName
    | _ => none
  setAttribute _ protoObj propStr valObj :=
    (some (.sparseList [(0, protoObj), (1, propStr), (2, valObj)]), ())

noncomputable instance : DecidableEq Platform.terms.core.Object :=
  inferInstanceAs (DecidableEq Term)

theorem Platform.terms_lawful : Platform.terms.Lawful .lossy where
  texts := .lossy
  protoNone := rfl
  collisionless :=
    { strings := Sum.inl_injective
      objects := Sum.inr_injective
      apart _ _ := Sum.inl_ne_inr }
  named _ := ⟨_, rfl⟩
  apart := by
    rintro _ _ _ _ _ _ ⟨⟩
    rfl
  setAttribute := by
    intro _ protoObj propName valObj
    refine ⟨_, (), rfl, ?_, ?_, ?_⟩
    · rintro ⟨⟩
    · exact if_pos rfl
    · intro other apart
      exact if_neg fun same => apart (congrArg Term.string same.symm)

/-- A JS object. -/
def anObject : GCBridge.JSValue := ⟨4096, .object⟩

/-- The object is mapped to a ProtoObject without attributes. -/
noncomputable def startTerms : Platform.terms.State where
  bridge := (GCBridge.State.allocate {} 4096 anObject).setMappings ()
    (GCBridge.registered Platform.terms.bridge 4096 0 anObject Term.object ∅)
  heap := ()
  quickJS := ()

theorem startTerms_mapped :
    protoObjectOf Platform.terms startTerms anObject () = some Term.object := by
  have lawful := Platform.terms_lawful
  have registered : GCBridge.registerMapping Platform.terms.bridge .recursive 4096 0 anObject
      (some Term.object) () 2 0 {} = some ((), startTerms.bridge) :=
    GCBridge.registerMapping_eq rfl rfl
  have present : Platform.terms.bridge.present (some Term.object) = some Term.object :=
    (lawful.present_eq Term.object).trans (if_neg nofun)
  exact (protoObjectOf_registerMapping lawful.collisionless rfl rfl _ registered).trans present

/-- One write of a value to the property `a` of the object. -/
theorem exists_run (val : Value) (storable : Storable val) :
    ∃ s, (writes Platform.terms () anObject startTerms).Run startTerms
      [⟨2, 4112, 0, "a", val⟩] s :=
  ⟨_, .single ⟨storable, opSetProperty_returns Platform.terms_lawful rfl startTerms_mapped⟩⟩

/-- A boolean is read back. -/
theorem reads_all_true : ∃ s, (writes Platform.terms () anObject startTerms).Run startTerms
    [⟨2, 4112, 0, "a", .bool true⟩] s ∧
    Reads Platform.terms () anObject s "a" (.bool true) := by
  obtain ⟨s, run⟩ := exists_run (.bool true) trivial
  refine ⟨s, run, ?_⟩
  refine (reads_all_iff Platform.terms_lawful rfl ?_ run).2 ?_ "a" (.bool true) rfl
  · rw [startTerms_mapped]
    rfl
  · intro prop value set
    have own := lastSet_append_singleton [] ⟨2, 4112, (0 : ℤ), "a", .bool true⟩ (· = prop)
    rw [List.nil_append] at own
    rw [own] at set
    split at set
    · rename_i same
      cases set
      exact ⟨.bool true, by rw [← same]; rfl, rfl⟩
    · cases set

/-- After null is set, the property is undefined. -/
theorem not_reads_null : ∃ s, (writes Platform.terms () anObject startTerms).Run startTerms
    [⟨2, 4112, 0, "a", .null⟩] s ∧
    ¬Reads Platform.terms () anObject s "a" .null := by
  obtain ⟨s, run⟩ := exists_run .null trivial
  refine ⟨s, run, fun reads => ?_⟩
  obtain ⟨later, written⟩ := written_of_run Platform.terms_lawful rfl startTerms_mapped run
  obtain ⟨storable, held⟩ := written.stored "a" _ rfl .null rfl
  have shown := (reads_iff Platform.terms_lawful written.mapped rfl storable held).1 reads
  cases shown

end Example

end ProtoJS.ExecutionEngine
