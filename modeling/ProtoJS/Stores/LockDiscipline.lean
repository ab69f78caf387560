import ProtoJS.Stores.GCBridge
import ProtoJS.Stores.Metrics

/-! # Who locks a static mutex twice

The mutexes of `GCBridge` and `Metrics` are plain. The calls below go on to a function that locks
the mutex they hold; every other call comes back.
-/

namespace ProtoJS

namespace GCBridge

variable {π δ χ η : Type} [DecidableEq χ] [DecidableEq η] {core : Core π δ χ η}
  {s : State π δ χ η}

/-- The mapping object under the key of a JS value. -/
def State.entry (core : Core π δ χ η) (s : State π δ χ η) (jsVal : JSValue) (ctx : χ) :
    Option (Object π δ) :=
  (s.getContextMappings ctx).lookup (core.stringHash (createJSValueKey jsVal))

/-- The call locks the mutex, and then calls a function that locks it again: `registerMapping`
and `registerRoot` each other, `unregisterMapping` of a root `unregisterRoot`, and
`getMemoryStats` `detectLeaks`. -/
def Operation.LocksTwice (core : Core π δ χ η) (s : State π δ χ η) : Operation π δ χ → Prop
  | .registerMapping _ _ jsVal protoObj ctx =>
    core.hasProtoContext ctx = true ∧ protoObj.isSome = true ∧ jsVal.isNullish = false
  | .registerRoot _ _ jsVal _ ctx =>
    core.hasProtoContext ctx = true ∧ s.entry core jsVal ctx = none
  | .unregisterMapping jsVal ctx =>
    core.hasProtoContext ctx = true ∧
      ∃ mappingObj ∈ s.entry core jsVal ctx, mappingObj.flag "isRoot" = true
  | .getMemoryStats _ ctx => core.hasProtoContext ctx = true
  | _ => False

private theorem registerMapping_returns (address : Pointer) (now : δ) (jsVal : JSValue)
    (protoObj : Option π) (ctx : χ) :
    Call.Returns (registerMapping core .plain address now jsVal protoObj ctx) s ↔
      ¬Operation.LocksTwice core s (.registerMapping address now jsVal protoObj ctx) := by
  constructor
  · rintro ⟨stack, returned⟩ ⟨context, object, active⟩
    obtain ⟨object, rfl⟩ := Option.isSome_iff_exists.mp object
    rcases stack with _ | _ | stack <;>
      simp [registerMapping, registerRoot, context, active, isActiveJSValue, setContextMappings,
        newJSValue] at returned
  · intro once
    refine ⟨1, ?_⟩
    cases protoObj with
    | none => rfl
    | some object =>
      cases active : jsVal.isNullish with
      | true => simp [registerMapping, active]
      | false =>
        have context : core.hasProtoContext ctx = false := by
          simpa [Operation.LocksTwice, active] using once
        simp [registerMapping, active, context]

private theorem registerRoot_returns (address : Pointer) (now : δ) (jsVal : JSValue)
    (protoObj : Option π) (ctx : χ) :
    Call.Returns (registerRoot core .plain address now jsVal protoObj ctx) s ↔
      ¬Operation.LocksTwice core s (.registerRoot address now jsVal protoObj ctx) := by
  have locks : Operation.LocksTwice core s (.registerRoot address now jsVal protoObj ctx) ↔
      core.hasProtoContext ctx = true ∧ s.entry core jsVal ctx = none := Iff.rfl
  constructor
  · rintro ⟨stack, returned⟩ ⟨context, absent⟩
    change (s.getContextMappings ctx).lookup _ = none at absent
    rcases stack with _ | _ | stack
    · simp [registerRoot] at returned
    · simp [registerRoot, registerMapping, context, absent] at returned
    · simp only [registerRoot, Call.withLock_free, context, if_true, Call.bind_apply,
        Call.get_apply, Option.bind_some, absent] at returned
      cases h : registerMapping core .plain address now jsVal protoObj ctx (stack + 1) 1 s with
      | none => simp [h] at returned
      | some answer => simp [h] at returned
  · intro once
    refine ⟨1, ?_⟩
    cases context : core.hasProtoContext ctx with
    | false => simp [registerRoot, context]
    | true =>
      cases found : (s.getContextMappings ctx).lookup
          (core.stringHash (createJSValueKey jsVal)) with
      | none => exact (once ⟨context, found⟩).elim
      | some mappingObj => simp [registerRoot, context, found, setContextMappings]

variable [DecidableEq π]

private theorem unregisterMapping_returns (jsVal : JSValue) (ctx : χ) :
    Call.Returns (fun _ => unregisterMapping core .plain jsVal ctx) s ↔
      ¬Operation.LocksTwice core s (.unregisterMapping jsVal ctx) := by
  cases context : core.hasProtoContext ctx with
  | false => simp [Call.Returns, unregisterMapping, context, Operation.LocksTwice]
  | true =>
    cases found : s.entry core jsVal ctx with
    | none =>
      change (s.getContextMappings ctx).lookup _ = none at found
      simp [Call.Returns, unregisterMapping, context, Operation.LocksTwice, State.entry, found]
    | some mappingObj =>
      change (s.getContextMappings ctx).lookup _ = some mappingObj at found
      cases root : mappingObj.flag "isRoot" with
      | true =>
        simp [Call.Returns, unregisterMapping, unregisterRoot, context, Operation.LocksTwice,
          State.entry, found, root]
      | false =>
        cases stored : core.protoObj mappingObj <;>
          simp [Call.Returns, unregisterMapping, context, Operation.LocksTwice, State.entry, found,
            root, stored, setContextMappings]

variable [Zero δ] [Sub δ] [LT δ] [DecidableLT δ]

/-- A call comes back, on a stack that is deep enough, exactly if it does not lock the mutex
twice. -/
theorem returns_iff (operation : Operation π δ χ) (s : State π δ χ η) :
    Call.Returns (fun stack => operation.call core .plain stack) s ↔
      ¬operation.LocksTwice core s := by
  cases operation with
  | registerMapping address now jsVal protoObj ctx =>
    exact registerMapping_returns address now jsVal protoObj ctx
  | registerRoot address now jsVal protoObj ctx =>
    exact registerRoot_returns address now jsVal protoObj ctx
  | unregisterMapping jsVal ctx => exact unregisterMapping_returns jsVal ctx
  | getMemoryStats now ctx =>
    cases context : core.hasProtoContext ctx <;>
      simp [Call.Returns, Operation.call, getMemoryStats, detectLeaks, Operation.LocksTwice,
        context]
  | initializeContext ctx | cleanup ctx =>
    cases context : core.hasProtoContext ctx <;>
      simp [Call.Returns, Operation.call, GCBridge.initializeContext, GCBridge.cleanup,
        setContextMappings, Operation.LocksTwice, context]
  | getProtoObject jsVal ctx =>
    cases context : core.hasProtoContext ctx <;>
      cases found : (s.getContextMappings ctx).lookup (core.stringHash (createJSValueKey jsVal)) <;>
      simp [Call.Returns, Operation.call, getProtoObject, Operation.LocksTwice, context, found]
  | getJSValue protoObj ctx =>
    cases context : core.hasProtoContext ctx <;>
      cases found : (s.getContextMappings ctx).lookup (core.objectHash protoObj) <;>
      simp [Call.Returns, Operation.call, getJSValue, extractExternalPointer, Operation.LocksTwice,
        context, found]
  | unregisterRoot jsVal ctx =>
    cases context : core.hasProtoContext ctx <;>
      cases found : (s.getContextMappings ctx).lookup (core.stringHash (createJSValueKey jsVal)) <;>
      simp [Call.Returns, Operation.call, unregisterRoot, setContextMappings,
        Operation.LocksTwice, context, found]
  | registerWeakRef address now jsVal protoObj ctx =>
    cases context : core.hasProtoContext ctx <;>
      simp [Call.Returns, Operation.call, registerWeakRef, newJSValue, setContextMappings,
        Operation.LocksTwice, context]
  | unregisterWeakRef jsVal ctx =>
    cases context : core.hasProtoContext ctx with
    | false => simp [Call.Returns, Operation.call, unregisterWeakRef, Operation.LocksTwice, context]
    | true =>
      cases found : (s.getContextMappings ctx).lookup
          (core.stringHash (createJSValueKey jsVal)) with
      | none =>
        simp [Call.Returns, Operation.call, unregisterWeakRef, Operation.LocksTwice, context, found]
      | some mappingObj =>
        cases weak : mappingObj.flag "isWeakRef" <;>
          simp [Call.Returns, Operation.call, unregisterWeakRef, setContextMappings,
            Operation.LocksTwice, context, found, weak]
  | detectLeaks now ctx =>
    cases context : core.hasProtoContext ctx <;>
      simp [Call.Returns, Operation.call, detectLeaks, Operation.LocksTwice, context]
  | reportLeaks now ctx =>
    cases context : core.hasProtoContext ctx with
    | false =>
      simp [Call.Returns, Operation.call, reportLeaks, detectLeaks, Operation.LocksTwice, context]
    | true =>
      simp [Call.Returns, Operation.call, reportLeaks, detectLeaks, Operation.LocksTwice, context]
      split <;> rfl
  | scanRoots ctx => simp [Call.Returns, Operation.call, scanRoots, Operation.LocksTwice]

end GCBridge

namespace Metrics

variable {δ η : Type} [DecidableEq η] [Zero δ] [One δ] [Add δ] [LE δ] [DecidableLE δ]

theorem returns_iff (core : Core δ η) (operation : Operation δ η) (s : State δ η) :
    Call.Returns (fun _ => operation.call core .plain) s ↔ operation ≠ .exportJSON := by
  cases operation with
  | exportJSON => simp [Call.Returns, Operation.call, exportJSON, getSnapshot]
  | incrementCounter name value labels =>
    simp [Call.Returns, Operation.call, incrementCounter]
  | getCounter name labels => simp [Call.Returns, Operation.call, getCounter]
  | setGauge name value labels => simp [Call.Returns, Operation.call, setGauge]
  | addGauge name value labels => simp [Call.Returns, Operation.call, addGauge]
  | getGauge name labels => simp [Call.Returns, Operation.call, getGauge]
  | recordHistogram name value labels => simp [Call.Returns, Operation.call, recordHistogram]
  | getHistogram name labels => simp [Call.Returns, Operation.call, getHistogram]
  | getSnapshot => simp [Call.Returns, Operation.call, getSnapshot]
  | exportPrometheus => simp [Call.Returns, Operation.call, exportPrometheus]

end Metrics

/-- The public functions of both stores come back exactly if they do not lock their mutex twice;
`exportJSON` always does. -/
theorem stores_return_iff {π δ χ η : Type} [DecidableEq π] [DecidableEq χ] [DecidableEq η]
    [Zero δ] [One δ] [Add δ] [Sub δ] [LT δ] [DecidableLT δ] [LE δ] [DecidableLE δ] :
    (∀ (core : GCBridge.Core π δ χ η) (operation : GCBridge.Operation π δ χ)
      (s : GCBridge.State π δ χ η),
      Call.Returns (fun stack => operation.call core .plain stack) s ↔
        ¬operation.LocksTwice core s) ∧
    ∀ (core : Metrics.Core δ η) (operation : Metrics.Operation δ η) (s : Metrics.State δ η),
      Call.Returns (fun _ => operation.call core .plain) s ↔ operation ≠ .exportJSON :=
  ⟨fun _ => GCBridge.returns_iff, Metrics.returns_iff⟩

/-- One context, ProtoObjects and hashes told apart by themselves, times as integers. -/
def plainCore : GCBridge.Core ℕ ℤ Unit (String ⊕ ℕ) where
  protoNone := none
  stringHash := .inl
  objectHash := .inr
  hasProtoContext _ := true
  format := toString

def plainMetrics : Metrics.Core ℤ String where
  stringHash := id
  asDouble
    | .double value | .integer value => value
    | .string _ => 0
  defaultBuckets := [1, 5, 10]
  format := toString

/-- The first registration of an object and the export of an empty store do not come back. -/
theorem stores_lock_twice :
    ¬Call.Returns (fun stack => (GCBridge.Operation.registerMapping 4096 0 ⟨77, .object⟩ (some 1)
      ()).call plainCore .plain stack) {} ∧
    ¬Call.Returns (fun _ => Metrics.Operation.exportJSON.call plainMetrics .plain) {} := by
  constructor
  · rw [GCBridge.returns_iff, not_not]
    exact ⟨rfl, rfl, rfl⟩
  · rw [Metrics.returns_iff]
    simp

end ProtoJS
