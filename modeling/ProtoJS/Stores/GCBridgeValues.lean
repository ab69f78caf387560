import ProtoJS.Stores.GCBridgeSteps

/-! # What the bridge says of a JS value

Sequences of operations under a re-entrant mutex. The key of a JS value is made from its payload
alone, so values of one payload share an entry whatever their tags are; no JS value comes back
from its wrapper; and a weak registration replaces the entry of a root.
-/

namespace ProtoJS.GCBridge

variable {π δ χ η : Type}

section Keys

theorem createJSValueKey_eq_iff {v w : JSValue} :
    createJSValueKey v = createJSValueKey w ↔ v.payload = w.payload := by
  constructor
  · intro same
    have digits : toString v.payload.toNat = toString w.payload.toNat :=
      (String.append_right_inj "jsval:").mp same
    exact BitVec.eq_of_toNat_eq (Nat.repr_injective digits)
  · intro same
    simp [createJSValueKey, getJSValueTag, same]

variable [DecidableEq π] {core : Core π δ χ η}

@[simp] theorem protoObj_setRoot (object : Object π δ) (root : Bool) :
    core.protoObj (object.setAttribute "isRoot" (.boolean root)) = core.protoObj object := by
  simp [Core.protoObj, Object.setAttribute]

@[simp] theorem protoObj_wrapper (address : Pointer) :
    core.protoObj (createExternalPointerWrapper address) = none := by
  simp [Core.protoObj, createExternalPointerWrapper, Object.setAttribute, newObject]

@[simp] theorem protoObj_strongMapping (jsVal : JSValue) (protoObj : Option π) (address : Pointer)
    (now : δ) :
    core.protoObj (strongMapping jsVal protoObj address now) = core.present protoObj := by
  simp [Core.protoObj, strongMapping, Object.setAttribute]

@[simp] theorem protoObj_weakMapping (jsVal : JSValue) (protoObj : Option π) (address : Pointer)
    (now : δ) :
    core.protoObj (weakMapping jsVal protoObj address now) = core.present protoObj := by
  simp [Core.protoObj, weakMapping, Object.setAttribute]

end Keys

section References

variable [DecidableEq η] [DecidableEq π] {core : Core π δ χ η} {address : Pointer} {now : δ}
  {jsVal : JSValue} {object : π} {mappingObj : Object π δ} {ctxMappings : Mappings π δ η} {key : η}

/-- What the entry under a key refers to. -/
def references (core : Core π δ χ η) (ctxMappings : Mappings π δ η) (key : η) : Option π :=
  (ctxMappings.lookup key).bind core.protoObj

/-- What the registration of an object leaves under the key of the value. -/
def Core.registeredReference (core : Core π δ χ η) (jsVal : JSValue) (object : π) : Option π :=
  if core.objectHash object = core.stringHash (createJSValueKey jsVal) then none
  else core.present (some object)

theorem references_insert (stored : Object π δ) (other : η) :
    references core (ctxMappings.insert other stored) key =
      if key = other then core.protoObj stored else references core ctxMappings key := by
  by_cases same : key = other
  · subst same
    simp [references]
  · simp [references, same]

theorem references_erase (other : η) :
    references core (ctxMappings.erase other) key =
      if key = other then none else references core ctxMappings key := by
  by_cases same : key = other
  · subst same
    simp [references]
  · simp [references, same]

theorem references_registered :
    references core (registered core address now jsVal object ctxMappings) key =
      if key = core.stringHash (createJSValueKey jsVal) then core.registeredReference jsVal object
      else if key = core.objectHash object then none
      else references core ctxMappings key := by
  rw [registered, references_insert, references_insert, references_insert]
  by_cases own : key = core.stringHash (createJSValueKey jsVal)
  · simp only [own, if_true, protoObj_setRoot]
    by_cases hit : core.objectHash object = core.stringHash (createJSValueKey jsVal)
    · simp [Core.registeredReference, hit]
    · simp [Core.registeredReference, hit, Ne.symm hit]
  · simp [own]

theorem references_unregistered :
    references core (unregistered core jsVal mappingObj ctxMappings) key =
      if key = core.stringHash (createJSValueKey jsVal) then none
      else if (core.protoObj mappingObj).map core.objectHash = some key then none
      else references core ctxMappings key := by
  rw [unregistered]
  cases stored : core.protoObj mappingObj with
  | none => simp [references_erase]
  | some object =>
    simp only [references_erase, Option.map_some, Option.some.injEq, eq_comm (a := key)]
    split <;> split <;> simp_all

end References

variable [DecidableEq χ] [DecidableEq η] [DecidableEq π]

/-- A call on a stack of some depth. -/
structure Step (π δ χ : Type) where
  stack : ℕ
  operation : Operation π δ χ

/-- The address that `new` answers is not in use. -/
def Operation.Fresh (s : State π δ χ η) : Operation π δ χ → Prop
  | .registerMapping address _ _ _ _ | .registerRoot address _ _ _ _
  | .registerWeakRef address _ _ _ _ => address ≠ 0 ∧ s.cells address = none
  | _ => True

/-- Sequences of operations that come back. -/
def bridge [Zero δ] [Sub δ] [LT δ] [DecidableLT δ] (core : Core π δ χ η) :
    Machine (State π δ χ η) (Step π δ χ) where
  initial := {}
  Enabled s step := step.operation.Fresh s ∧
    (step.operation.call core .recursive step.stack 0 s).isSome = true
  next s step := match step.operation.call core .recursive step.stack 0 s with
    | some answer => answer.2
    | none => s

/-- The JS value and the context that an operation on a mapping is about. -/
def Operation.subject : Operation π δ χ → Option (JSValue × χ)
  | .registerMapping _ _ jsVal _ ctx | .registerRoot _ _ jsVal _ ctx
  | .registerWeakRef _ _ jsVal _ ctx | .unregisterMapping jsVal ctx | .unregisterRoot jsVal ctx
  | .unregisterWeakRef jsVal ctx => some (jsVal, ctx)
  | _ => none

section Frame

variable {core : Core π δ χ η} {s t : State π δ χ η} {jsVal v w : JSValue} {ctx other : χ}
  {operation : Operation π δ χ} {stack : ℕ} {key : η}

/-- The object that a call takes into the mappings: `registerMapping` does if it does not return
early, `registerRoot` if in addition there is no entry yet. -/
def Operation.accepts (core : Core π δ χ η) (s : State π δ χ η) : Operation π δ χ → Option π
  | .registerMapping _ _ jsVal protoObj ctx => core.accepted jsVal protoObj ctx
  | .registerRoot _ _ jsVal protoObj ctx =>
    if (s.entry core jsVal ctx).isSome then none else core.accepted jsVal protoObj ctx
  | _ => none

/-- What a call that replaces or removes the entry of its JS value leaves there. -/
def Operation.leaves (core : Core π δ χ η) (s : State π δ χ η) (operation : Operation π δ χ) :
    Option (Option π) :=
  match operation with
  | .registerMapping _ _ jsVal _ _ | .registerRoot _ _ jsVal _ _ =>
    (operation.accepts core s).map (core.registeredReference jsVal)
  | .registerWeakRef _ _ _ protoObj ctx =>
    if core.hasProtoContext ctx then some (core.present protoObj) else none
  | .unregisterMapping jsVal ctx =>
    if core.hasProtoContext ctx then (s.entry core jsVal ctx).map fun _ => none else none
  | .unregisterWeakRef jsVal ctx =>
    if core.hasProtoContext ctx && (s.entry core jsVal ctx).any (·.flag "isWeakRef") then some none
    else none
  | _ => none

/-- The key of the reverse entry that a call writes or removes. -/
def Operation.reverseKey (core : Core π δ χ η) (s : State π δ χ η) (operation : Operation π δ χ) :
    Option η :=
  match operation with
  | .registerMapping .. | .registerRoot .. => (operation.accepts core s).map core.objectHash
  | .unregisterMapping jsVal ctx =>
    if core.hasProtoContext ctx then
      ((s.entry core jsVal ctx).bind core.protoObj).map core.objectHash
    else none
  | _ => none

variable [Zero δ] [Sub δ] [LT δ] [DecidableLT δ]

omit [Zero δ] [Sub δ] [LT δ] [DecidableLT δ] in
/-- The root flag of an entry is no reference. -/
theorem references_setRoot {mappingObj : Object π δ}
    (entry : s.entry core jsVal ctx = some mappingObj) (root : Bool) :
    references core ((s.getContextMappings ctx).insert (core.stringHash (createJSValueKey jsVal))
        (mappingObj.setAttribute "isRoot" (.boolean root))) key =
      references core (s.getContextMappings ctx) key := by
  rw [references_insert, protoObj_setRoot]
  split
  · rename_i own
    rw [own, references, lookup_key, entry, Option.bind_some]
  · rfl

/-- What the keys of a context refer to after an operation on a JS value. -/
theorem references_after (subject : operation.subject = some (w, ctx))
    (returned : operation.call core .recursive stack 0 s = some ((), t)) :
    references core (t.getContextMappings ctx) key =
      if key = core.stringHash (createJSValueKey w) then
        (operation.leaves core s).getD (references core (s.getContextMappings ctx) key)
      else if operation.reverseKey core s = some key then none
      else references core (s.getContextMappings ctx) key := by
  cases operation with
  | registerMapping address now jsVal protoObj ctx =>
    cases subject
    rcases registerMapping_cases returned with ⟨object, accepted, rfl⟩ | ⟨rfl, accepted⟩
    · simp [references_registered, Operation.leaves, Operation.reverseKey, Operation.accepts,
        accepted, eq_comm (a := key)]
    · simp [Operation.leaves, Operation.reverseKey, Operation.accepts, accepted]
  | registerRoot address now jsVal protoObj ctx =>
    cases subject
    rcases registerRoot_cases returned with
      ⟨context, rfl⟩ | ⟨mappingObj, context, entry, rfl⟩ | ⟨object, accepted, entry, rfl⟩
    · have accepted : core.accepted w protoObj ctx = none := by simp [Core.accepted, context]
      simp [Operation.leaves, Operation.reverseKey, Operation.accepts, accepted]
    · simp [references_setRoot entry, Operation.leaves, Operation.reverseKey, Operation.accepts,
        entry]
    · simp [references_registered, Operation.leaves, Operation.reverseKey, Operation.accepts,
        accepted, entry, eq_comm (a := key)]
  | registerWeakRef address now jsVal protoObj ctx =>
    cases subject
    rcases registerWeakRef_cases returned with ⟨context, rfl⟩ | ⟨context, rfl⟩
    · simp [Operation.leaves, Operation.reverseKey, context]
    · simp [references_insert, Operation.leaves, Operation.reverseKey, context]
  | unregisterMapping jsVal ctx =>
    cases subject
    rcases unregisterMapping_cases returned with ⟨rfl, absent⟩ | ⟨mappingObj, entry, context, rfl⟩
    · cases context : core.hasProtoContext ctx with
      | false => simp [Operation.leaves, Operation.reverseKey, context]
      | true => simp [Operation.leaves, Operation.reverseKey, context, absent context]
    · simp [references_unregistered, Operation.leaves, Operation.reverseKey, context, entry]
  | unregisterRoot jsVal ctx =>
    cases subject
    rcases unregisterRoot_cases returned with rfl | ⟨mappingObj, entry, rfl⟩
    · simp [Operation.leaves, Operation.reverseKey]
    · simp [references_setRoot entry, Operation.leaves, Operation.reverseKey]
  | unregisterWeakRef jsVal ctx =>
    cases subject
    rcases unregisterWeakRef_cases returned with
      ⟨rfl, strong⟩ | ⟨mappingObj, entry, context, weak, rfl⟩
    · have kept : Operation.leaves core t (.unregisterWeakRef w ctx) = none := by
        cases context : core.hasProtoContext ctx with
        | false => simp [Operation.leaves, context]
        | true =>
          have strong := strong context
          cases entry : t.entry core w ctx <;> simp_all [Operation.leaves]
      simp [kept, Operation.reverseKey]
    · simp [references_erase, Operation.leaves, Operation.reverseKey, context, entry, weak]
  | _ => cases subject

/-- An operation on a JS value touches its own context only. -/
theorem getContextMappings_of_ne (subject : operation.subject = some (w, ctx))
    (returned : operation.call core .recursive stack 0 s = some ((), t)) (distinct : other ≠ ctx) :
    t.getContextMappings other = s.getContextMappings other := by
  have kept (u : State π δ χ η) (mappings : Mappings π δ η) :
      (u.setMappings ctx mappings).getContextMappings other = u.getContextMappings other :=
    getContextMappings_setMappings_of_ne distinct
  cases operation with
  | registerMapping address now jsVal protoObj ctx =>
    cases subject
    rcases registerMapping_cases returned with ⟨object, _, rfl⟩ | ⟨rfl, _⟩
    · exact kept _ _
    · rfl
  | registerRoot address now jsVal protoObj ctx =>
    cases subject
    rcases registerRoot_cases returned with ⟨_, rfl⟩ | ⟨mappingObj, _, _, rfl⟩ | ⟨object, _, _, rfl⟩
    · rfl
    · exact kept _ _
    · exact kept _ _
  | registerWeakRef address now jsVal protoObj ctx =>
    cases subject
    rcases registerWeakRef_cases returned with ⟨_, rfl⟩ | ⟨_, rfl⟩
    · rfl
    · exact kept _ _
  | unregisterMapping jsVal ctx =>
    cases subject
    rcases unregisterMapping_cases returned with ⟨rfl, _⟩ | ⟨mappingObj, _, _, rfl⟩
    · rfl
    · exact kept _ _
  | unregisterRoot jsVal ctx =>
    cases subject
    rcases unregisterRoot_cases returned with rfl | ⟨mappingObj, _, rfl⟩
    · rfl
    · exact kept _ _
  | unregisterWeakRef jsVal ctx =>
    cases subject
    rcases unregisterWeakRef_cases returned with ⟨rfl, _⟩ | ⟨mappingObj, _, _, _, rfl⟩
    · rfl
    · exact kept _ _
  | _ => cases subject

/-- The call of an enabled step answers with the next state. -/
theorem call_of_enabled {step : Step π δ χ} (enabled : (bridge core).Enabled s step) :
    step.operation.call core .recursive step.stack 0 s = some ((), (bridge core).next s step) := by
  obtain ⟨⟨⟨⟩, t⟩, answered⟩ := Option.isSome_iff_exists.mp enabled.2
  simp [bridge, answered]

/-- What `getProtoObject` answers. -/
def State.getProtoObject (core : Core π δ χ η) (s : State π δ χ η) (jsVal : JSValue) (ctx : χ) :
    Option (Option π) :=
  (GCBridge.getProtoObject core .recursive jsVal ctx 0 s).map Prod.fst

omit [Zero δ] [Sub δ] [LT δ] [DecidableLT δ] in
theorem getProtoObject_eq_iff (context : core.hasProtoContext ctx = true) :
    t.getProtoObject core v ctx = s.getProtoObject core v ctx ↔
      references core (t.getContextMappings ctx) (core.stringHash (createJSValueKey v)) =
        references core (s.getContextMappings ctx) (core.stringHash (createJSValueKey v)) := by
  simp [State.getProtoObject, getProtoObject_apply, State.protoObjectOf, context, references,
    State.entry]

/-- The reference of a JS value survives a call on another one exactly if the payloads differ and
the call writes or removes no reverse entry under the key of the former, or if what the call
leaves there refers to the same as before. -/
theorem getProtoObject_survives_iff (injective : Function.Injective core.stringHash)
    {step : Step π δ χ} (enabled : (bridge core).Enabled s step)
    (subject : step.operation.subject = some (w, ctx)) :
    ((bridge core).next s step).getProtoObject core v other = s.getProtoObject core v other ↔
      (other = ctx → core.hasProtoContext ctx = true →
        if v.payload = w.payload then
          ∀ reference ∈ step.operation.leaves core s, s.getProtoObject core v ctx = some reference
        else step.operation.reverseKey core s = some (core.stringHash (createJSValueKey v)) →
          s.getProtoObject core v ctx = some none) := by
  have returned := call_of_enabled enabled
  by_cases here : other = ctx
  · subst here
    cases context : core.hasProtoContext other with
    | false => simp [State.getProtoObject, getProtoObject_apply, State.protoObjectOf, context]
    | true =>
      have key : core.stringHash (createJSValueKey v) = core.stringHash (createJSValueKey w) ↔
          v.payload = w.payload := injective.eq_iff.trans createJSValueKey_eq_iff
      have before : s.getProtoObject core v other =
          some (references core (s.getContextMappings other)
            (core.stringHash (createJSValueKey v))) := by
        simp [State.getProtoObject, getProtoObject_apply, State.protoObjectOf, context, references,
          State.entry]
      rw [getProtoObject_eq_iff context, references_after subject returned, before]
      by_cases same : v.payload = w.payload
      · rw [if_pos (key.mpr same)]
        cases leaves : step.operation.leaves core s <;> simp [same, eq_comm]
      · rw [if_neg (mt key.mp same)]
        by_cases hit : step.operation.reverseKey core s =
            some (core.stringHash (createJSValueKey v))
        · simp [same, hit, eq_comm]
        · simp [same, hit]
  · have kept := getContextMappings_of_ne subject returned here
    simp [here, State.getProtoObject, getProtoObject_apply, State.protoObjectOf, State.entry, kept]

instance (s : State π δ χ η) : DecidablePred (Operation.Fresh (δ := δ) (π := π) (χ := χ) s)
  | .registerMapping address _ _ _ _ | .registerRoot address _ _ _ _
  | .registerWeakRef address _ _ _ _ =>
    inferInstanceAs (Decidable (address ≠ 0 ∧ s.cells address = none))
  | .initializeContext _ | .unregisterMapping _ _ | .getProtoObject _ _ | .getJSValue _ _
  | .unregisterRoot _ _ | .unregisterWeakRef _ _ | .detectLeaks _ _ | .reportLeaks _ _
  | .getMemoryStats _ _ | .cleanup _ | .scanRoots _ => inferInstanceAs (Decidable True)

instance (s : State π δ χ η) (step : Step π δ χ) : Decidable ((bridge core).Enabled s step) :=
  inferInstanceAs (Decidable (step.operation.Fresh s ∧ _))

/-- The integer 1 is mapped to ProtoObject 1. -/
def oneMapped : Step ℕ ℤ Unit := ⟨2, .registerMapping 4096 0 ⟨1, .int⟩ (some 1) ()⟩

/-- The boolean `true`, of the same payload, is mapped to ProtoObject 2. -/
def trueMapped : Step ℕ ℤ Unit := ⟨2, .registerMapping 4112 0 ⟨1, .bool⟩ (some 2) ()⟩

/-- The integer 2 is mapped to ProtoObject 2. -/
def twoMapped : Step ℕ ℤ Unit := ⟨2, .registerMapping 4112 0 ⟨2, .int⟩ (some 2) ()⟩

theorem getProtoObject_survives_iff_two : ∃ s, (bridge plainCore).Run {} [oneMapped] s ∧
    ((bridge plainCore).next s twoMapped).getProtoObject plainCore ⟨1, .int⟩ () =
      s.getProtoObject plainCore ⟨1, .int⟩ () ∧
    s.getProtoObject plainCore ⟨1, .int⟩ () = some (some 1) := by
  obtain ⟨s, run, enabled, hit, mapped⟩ := (bridge plainCore).exists_run_of_replay {} [oneMapped]
    (fun s => (bridge plainCore).Enabled s twoMapped ∧
      twoMapped.operation.reverseKey plainCore s = some (.inr 2) ∧
      s.getProtoObject plainCore ⟨1, .int⟩ () = some (some 1)) (by decide)
  refine ⟨s, run, ?_, mapped⟩
  have subject : twoMapped.operation.subject = some (⟨2, .int⟩, ()) := rfl
  refine (getProtoObject_survives_iff Sum.inl_injective enabled subject).mpr fun _ _ => ?_
  rw [if_neg (by decide), hit]
  simp [plainCore]

/-- The registration of `true` replaces what is stored for the integer 1. -/
theorem payload_shared : ∃ s, (bridge plainCore).Run {} [oneMapped] s ∧
    s.getProtoObject plainCore ⟨1, .int⟩ () = some (some 1) ∧
    ∃ t, (bridge plainCore).Run s [trueMapped] t ∧
      t.getProtoObject plainCore ⟨1, .int⟩ () = some (some 2) := by
  obtain ⟨s, run, mapped, second⟩ := (bridge plainCore).exists_run_of_replay {} [oneMapped]
    (fun s => s.getProtoObject plainCore ⟨1, .int⟩ () = some (some 1) ∧
      (((bridge plainCore).replay s [trueMapped]).any fun t =>
        decide (t.getProtoObject plainCore ⟨1, .int⟩ () = some (some 2))) = true) (by decide)
  exact ⟨s, run, mapped, (bridge plainCore).exists_run_of_replay s [trueMapped] _ second⟩

end Frame

section RoundTrip

variable {core : Core π δ χ η} {s : State π δ χ η} {ctx : χ}

/-- The operation is about the JS value or the ProtoObject, or clears the context. -/
def Operation.Concerns (jsVal : JSValue) (object : π) (ctx : χ) : Operation π δ χ → Prop
  | .registerMapping _ _ other protoObj at_ | .registerRoot _ _ other protoObj at_
  | .registerWeakRef _ _ other protoObj at_ =>
    at_ = ctx ∧ (other = jsVal ∨ protoObj = some object)
  | .unregisterMapping other at_ | .unregisterRoot other at_ | .unregisterWeakRef other at_ =>
    at_ = ctx ∧ other = jsVal
  | .cleanup at_ | .initializeContext at_ => at_ = ctx
  | _ => False

variable [Zero δ] [Sub δ] [LT δ] [DecidableLT δ]

/-- After the registration of a JS value with a ProtoObject, whatever other operations follow,
`getJSValue` gives the value back only if it is `JS_NULL`, which is not registered at all; and of
all pointers only the null pointer comes back from its wrapper. -/
theorem getJSValue_roundTrip_iff (before later : List (Step π δ χ)) (stack : ℕ)
    (address : Pointer) (now : δ) (jsVal : JSValue) (object : π) :
    (bridge core).Run {} (before ++
        ⟨stack, .registerMapping address now jsVal (some object) ctx⟩ :: later) s →
      (∀ step ∈ later, ¬step.operation.Concerns jsVal object ctx) →
      ((getJSValue core .recursive object ctx 0 s = some (jsVal, s) ↔ jsVal = .null) ∧
        ∀ pointer, extractExternalPointer (createExternalPointerWrapper pointer : Object π δ) =
          pointer ↔ pointer = 0) := by
  intro _ _
  constructor
  · rw [getJSValue_apply]
    constructor
    · intro answer
      cases answer
      rfl
    · rintro rfl
      rfl
  · intro pointer
    exact ⟨Eq.symm, Eq.symm⟩

theorem getJSValue_roundTrip_iff_object : ∃ s, (bridge plainCore).Run {} [oneMapped] s ∧
    getJSValue plainCore .recursive 1 () 0 s ≠ some (⟨1, .int⟩, s) := by
  obtain ⟨s, run, _⟩ := (bridge plainCore).exists_run_of_replay {} [oneMapped] (fun _ => True)
    (by decide)
  refine ⟨s, run, fun answer => ?_⟩
  have null := ((getJSValue_roundTrip_iff [] [] 2 4096 0 ⟨1, .int⟩ 1 run (by simp)).1).mp answer
  exact absurd null (by decide)

/-- A registered value comes back as `JS_NULL`, and the address of its cell as the null pointer. -/
theorem getJSValue_null : ∃ s, (bridge plainCore).Run {} [oneMapped] s ∧
    (getJSValue plainCore .recursive 1 () 0 s).map Prod.fst = some .null ∧
    extractExternalPointer (createExternalPointerWrapper 4096 : Object ℕ ℤ) ≠ 4096 := by
  obtain ⟨s, run, answer⟩ := (bridge plainCore).exists_run_of_replay {} [oneMapped]
    (fun s => (getJSValue plainCore .recursive 1 () 0 s).map Prod.fst = some .null) (by decide)
  exact ⟨s, run, answer, by decide⟩

end RoundTrip

section WeakReferences

variable {core : Core π δ χ η} {s t u : State π δ χ η} {jsVal : JSValue} {ctx : χ}

/-- The root flag of a JS value, as `unregisterMapping` reads it. -/
def State.isRoot (core : Core π δ χ η) (s : State π δ χ η) (jsVal : JSValue) (ctx : χ) : Bool :=
  core.hasProtoContext ctx && (s.entry core jsVal ctx).any (·.flag "isRoot")

omit [DecidableEq π] in
/-- A weak registration replaces the entry by one that is not a root. -/
theorem isRoot_registerWeakRef {address : Pointer} {now : δ} {protoObj : Option π}
    (returned : registerWeakRef core .recursive address now jsVal protoObj ctx 0 s =
      some ((), t)) : t.isRoot core jsVal ctx = false := by
  rcases registerWeakRef_cases returned with ⟨context, rfl⟩ | ⟨context, rfl⟩
  · simp [State.isRoot, context]
  · simp [State.isRoot, State.entry, weakMapping, Object.flag, Object.setAttribute]

omit [DecidableEq π] in
/-- Its removal leaves nothing under the key of the value. -/
theorem entry_unregisterWeakRef {address : Pointer} {now : δ} {protoObj : Option π}
    (context : core.hasProtoContext ctx = true)
    (registered : registerWeakRef core .recursive address now jsVal protoObj ctx 0 s =
      some ((), t))
    (unregistered : unregisterWeakRef core .recursive jsVal ctx 0 t = some ((), u)) :
    u.entry core jsVal ctx = none := by
  rcases registerWeakRef_cases registered with ⟨missing, _⟩ | ⟨_, rfl⟩
  · cases context.symm.trans missing
  · rcases unregisterWeakRef_cases unregistered with ⟨rfl, strong⟩ | ⟨mappingObj, _, _, _, rfl⟩
    · have weak := strong context (weakMapping jsVal protoObj address now) (by simp [State.entry])
      simp [weakMapping, Object.flag, Object.setAttribute] at weak
    · simp [State.entry]

omit [DecidableEq π] in
theorem registerWeakRef_returns (core : Core π δ χ η) (s : State π δ χ η) (jsVal : JSValue)
    (ctx : χ) (address : Pointer) (now : δ) (protoObj : Option π) :
    ∃ t, registerWeakRef core .recursive address now jsVal protoObj ctx 0 s = some ((), t) := by
  cases context : core.hasProtoContext ctx <;> simp [registerWeakRef, context]

omit [DecidableEq π] in
theorem unregisterWeakRef_returns (core : Core π δ χ η) (s : State π δ χ η) (jsVal : JSValue)
    (ctx : χ) :
    ∃ t, unregisterWeakRef core .recursive jsVal ctx 0 s = some ((), t) := by
  cases context : core.hasProtoContext ctx with
  | false => exact ⟨s, by simp [unregisterWeakRef, context]⟩
  | true =>
    cases entry : s.entry core jsVal ctx with
    | none => exact ⟨s, by simp [unregisterWeakRef, context, lookup_key, entry]⟩
    | some mappingObj =>
      cases weak : mappingObj.flag "isWeakRef" <;>
        simp [unregisterWeakRef, context, lookup_key, entry, weak]

/-- In every state `registerWeakRef` of a root takes its root flag away, and `unregisterWeakRef`
then neither gives it back nor leaves the value mapped. -/
theorem root_weakened (root : s.isRoot core jsVal ctx = true) (address : Pointer) (now : δ)
    (protoObj : Option π) :
    ∃ t u, registerWeakRef core .recursive address now jsVal protoObj ctx 0 s = some ((), t) ∧
      unregisterWeakRef core .recursive jsVal ctx 0 t = some ((), u) ∧
      t.isRoot core jsVal ctx = false ∧
      u.isRoot core jsVal ctx ≠ s.isRoot core jsVal ctx ∧
      u.getProtoObject core jsVal ctx = some none := by
  have context : core.hasProtoContext ctx = true := by
    simp only [State.isRoot, Bool.and_eq_true] at root
    exact root.1
  obtain ⟨t, registered⟩ := registerWeakRef_returns core s jsVal ctx address now protoObj
  obtain ⟨u, unregistered⟩ := unregisterWeakRef_returns core t jsVal ctx
  have gone := entry_unregisterWeakRef context registered unregistered
  refine ⟨t, u, registered, unregistered, isRoot_registerWeakRef registered, ?_, ?_⟩
  · rw [root]
    simp [State.isRoot, gone]
  · simp [State.getProtoObject, getProtoObject_apply, State.protoObjectOf, gone]

/-- The integer 1, mapped to ProtoObject 1 and so a root, is registered weakly as well. -/
theorem root_weakened_one : ∃ s, (bridge plainCore).Run {} [oneMapped] s ∧
    s.isRoot plainCore ⟨1, .int⟩ () = true ∧
    ∃ t u, registerWeakRef plainCore .recursive 4112 0 ⟨1, .int⟩ (some 1) () 0 s = some ((), t) ∧
      unregisterWeakRef plainCore .recursive ⟨1, .int⟩ () 0 t = some ((), u) ∧
      t.isRoot plainCore ⟨1, .int⟩ () = false ∧
      u.isRoot plainCore ⟨1, .int⟩ () ≠ s.isRoot plainCore ⟨1, .int⟩ () ∧
      u.getProtoObject plainCore ⟨1, .int⟩ () = some none := by
  obtain ⟨s, run, root⟩ := (bridge plainCore).exists_run_of_replay {} [oneMapped]
    (fun s => s.isRoot plainCore ⟨1, .int⟩ () = true) (by decide)
  exact ⟨s, run, root, root_weakened root 4112 0 (some 1)⟩

/-- Its weak registration, and the removal of that. -/
def weakPair : List (Step ℕ ℤ Unit) :=
  [⟨0, .registerWeakRef 4112 0 ⟨1, .int⟩ (some 1) ()⟩, ⟨0, .unregisterWeakRef ⟨1, .int⟩ ()⟩]

/-- The pair undoes the mapping of a root. -/
theorem mapping_lost : ∃ s, (bridge plainCore).Run {} [oneMapped] s ∧
    s.isRoot plainCore ⟨1, .int⟩ () = true ∧
    s.getProtoObject plainCore ⟨1, .int⟩ () = some (some 1) ∧
    ∃ u, (bridge plainCore).Run s weakPair u ∧ u.isRoot plainCore ⟨1, .int⟩ () = false ∧
      u.getProtoObject plainCore ⟨1, .int⟩ () = some none := by
  obtain ⟨s, run, root, mapped, pair⟩ := (bridge plainCore).exists_run_of_replay {} [oneMapped]
    (fun s => s.isRoot plainCore ⟨1, .int⟩ () = true ∧
      s.getProtoObject plainCore ⟨1, .int⟩ () = some (some 1) ∧
      (((bridge plainCore).replay s weakPair).any fun u =>
        decide (u.isRoot plainCore ⟨1, .int⟩ () = false ∧
          u.getProtoObject plainCore ⟨1, .int⟩ () = some none)) = true) (by decide)
  exact ⟨s, run, root, mapped, (bridge plainCore).exists_run_of_replay s weakPair _ pair⟩

end WeakReferences

end ProtoJS.GCBridge
