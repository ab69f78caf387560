import ProtoJS.Stores.LockDiscipline

/-! # What the bridge's operations do

With a re-entrant mutex the operations change one context's mappings as described here, once for
every operation. `registerRoot` of a value without an entry goes by way of `registerMapping`, and
calls itself without end if that one returns early.
-/

namespace ProtoJS.GCBridge

variable {π δ χ η : Type} [DecidableEq χ] [DecidableEq η]

/-- Replace the mappings of a context. -/
def State.setMappings (s : State π δ χ η) (ctx : χ) (mappings : Mappings π δ η) :
    State π δ χ η :=
  { s with contextMappings := s.contextMappings.insert ctx mappings }

/-- A new cell that holds a JS value. -/
def State.allocate (s : State π δ χ η) (address : Pointer) (jsVal : JSValue) : State π δ χ η :=
  { s with cells := Function.update s.cells address (some jsVal) }

section Lookups

variable {s : State π δ χ η} {ctx other : χ} {mappings later : Mappings π δ η} {address : Pointer}
  {jsVal : JSValue} {held : ℕ}

omit [DecidableEq η] in
@[simp] theorem setContextMappings_apply :
    setContextMappings ctx mappings held s = some ((), s.setMappings ctx mappings) := rfl

omit [DecidableEq χ] [DecidableEq η] in
@[simp] theorem newJSValue_apply :
    newJSValue address jsVal held s = some ((), s.allocate address jsVal) := rfl

omit [DecidableEq η] in
@[simp] theorem getContextMappings_setMappings :
    (s.setMappings ctx mappings).getContextMappings ctx = mappings := by
  simp [State.setMappings, State.getContextMappings]

omit [DecidableEq η] in
theorem getContextMappings_setMappings_of_ne (distinct : other ≠ ctx) :
    (s.setMappings ctx mappings).getContextMappings other = s.getContextMappings other := by
  simp [State.setMappings, State.getContextMappings, distinct]

omit [DecidableEq η] in
omit [DecidableEq η] in
@[simp] theorem setMappings_setMappings :
    (s.setMappings ctx mappings).setMappings ctx later = s.setMappings ctx later := by
  simp [State.setMappings]

theorem lookup_key (core : Core π δ χ η) :
    (s.getContextMappings ctx).lookup (core.stringHash (createJSValueKey jsVal)) =
      s.entry core jsVal ctx := rfl

end Lookups

/-- What `registerMapping` makes of the mappings: the entry, the reverse entry, and the root flag
of what is then stored under the key of the value. -/
def registered (core : Core π δ χ η) (address : Pointer) (now : δ) (jsVal : JSValue) (object : π)
    (ctxMappings : Mappings π δ η) : Mappings π δ η :=
  let jsKeyHash := core.stringHash (createJSValueKey jsVal)
  let entry := strongMapping jsVal (some object) address now
  let newMappings := (ctxMappings.insert jsKeyHash entry).insert (core.objectHash object)
    (createExternalPointerWrapper address)
  newMappings.insert jsKeyHash
    (((newMappings.lookup jsKeyHash).getD entry).setAttribute "isRoot" (.boolean true))

section Specifications

variable {core : Core π δ χ η} {s t : State π δ χ η} {address : Pointer} {now : δ}
  {jsVal : JSValue} {protoObj : Option π} {ctx : χ} {stack held : ℕ}

omit [DecidableEq χ] [DecidableEq η] in
private theorem state_eq {call : BridgeCall π δ χ η Unit} {u : State π δ χ η}
    (returned : call held s = some ((), t)) (answer : call held s = some ((), u)) : t = u := by
  rw [answer] at returned
  cases returned
  rfl

/-- The object that the bridge takes into the mappings of the context, if it takes one. -/
def Core.accepted (core : Core π δ χ η) (jsVal : JSValue) (protoObj : Option π) (ctx : χ) :
    Option π :=
  if jsVal.isNullish = false ∧ core.hasProtoContext ctx = true then protoObj else none

theorem registerRoot_present {mappingObj : Object π δ} (context : core.hasProtoContext ctx = true)
    (found : s.entry core jsVal ctx = some mappingObj) :
    registerRoot core .recursive address now jsVal protoObj ctx (stack + 1) held s =
      some ((), s.setMappings ctx ((s.getContextMappings ctx).insert
        (core.stringHash (createJSValueKey jsVal))
        (mappingObj.setAttribute "isRoot" (.boolean true)))) := by
  simp [registerRoot, context, lookup_key, found]

omit [DecidableEq χ] in
private theorem lookup_registering (core : Core π δ χ η) (address : Pointer) (now : δ)
    (jsVal : JSValue) (object : π) (ctxMappings : Mappings π δ η) :
    ∃ stored, ((ctxMappings.insert (core.stringHash (createJSValueKey jsVal))
      (strongMapping jsVal (some object) address now)).insert (core.objectHash object)
        (createExternalPointerWrapper address)).lookup
      (core.stringHash (createJSValueKey jsVal)) = some stored := by
  by_cases same : core.stringHash (createJSValueKey jsVal) = core.objectHash object
  · exact ⟨_, by rw [same, AList.lookup_insert]⟩
  · exact ⟨_, by rw [AList.lookup_insert_ne same, AList.lookup_insert]⟩

theorem registerMapping_eq {object : π} (active : jsVal.isNullish = false)
    (context : core.hasProtoContext ctx = true) :
    registerMapping core .recursive address now jsVal (some object) ctx (stack + 2) held s =
      some ((), (s.allocate address jsVal).setMappings ctx
        (registered core address now jsVal object (s.getContextMappings ctx))) := by
  obtain ⟨stored, found⟩ :=
    lookup_registering core address now jsVal object (s.getContextMappings ctx)
  have present : ((s.allocate address jsVal).setMappings ctx _).entry core jsVal ctx =
      some stored := (congrArg (AList.lookup _) getContextMappings_setMappings).trans found
  have root : registerRoot core .recursive address now jsVal (some object) ctx (stack + 1)
      (held + 1) _ = _ := registerRoot_present context present
  simp [registerMapping, active, context, isActiveJSValue, root, registered, found]

/-- What `registerMapping` does when it comes back. -/
theorem registerMapping_cases
    (returned : registerMapping core .recursive address now jsVal protoObj ctx stack held s =
      some ((), t)) :
    (∃ object, core.accepted jsVal protoObj ctx = some object ∧
      t = (s.allocate address jsVal).setMappings ctx
        (registered core address now jsVal object (s.getContextMappings ctx))) ∨
    t = s ∧ core.accepted jsVal protoObj ctx = none := by
  cases stack with
  | zero => simp [registerMapping] at returned
  | succ stack =>
    cases protoObj with
    | none => exact .inr ⟨state_eq returned (by simp [registerMapping]), by simp [Core.accepted]⟩
    | some object =>
      cases nullish : jsVal.isNullish with
      | true =>
        refine .inr ⟨?_, by simp [Core.accepted, nullish]⟩
        exact state_eq returned (by simp [registerMapping, nullish])
      | false =>
        cases context : core.hasProtoContext ctx with
        | false =>
          refine .inr ⟨?_, by simp [Core.accepted, context]⟩
          exact state_eq returned (by simp [registerMapping, nullish, context])
        | true =>
          refine .inl ⟨object, by simp [Core.accepted, nullish, context], ?_⟩
          -- the call of `registerRoot` takes one more level of the stack
          cases stack with
          | zero =>
            simp [registerMapping, registerRoot, nullish, context, isActiveJSValue] at returned
          | succ stack =>
            rw [registerMapping_eq nullish context] at returned
            cases returned
            rfl

private theorem registerRoot_registered {object : π} (m : State π δ χ η) (found :
      m = (s.allocate address jsVal).setMappings ctx
        (registered core address now jsVal object (s.getContextMappings ctx)))
    (context : core.hasProtoContext ctx = true)
    (returned : registerRoot core .recursive address now jsVal protoObj ctx stack held m =
      some ((), t)) : t = m := by
  cases stack with
  | zero => simp [registerRoot] at returned
  | succ stack =>
    subst found
    rw [registerRoot_present context (by
      rw [State.entry, getContextMappings_setMappings, registered,
        AList.lookup_insert])] at returned
    cases returned
    simp [registered, Object.setAttribute]

/-- What `registerRoot` does when it comes back. -/
theorem registerRoot_cases
    (returned : registerRoot core .recursive address now jsVal protoObj ctx stack held s =
      some ((), t)) :
    (core.hasProtoContext ctx = false ∧ t = s) ∨
    (∃ mappingObj, core.hasProtoContext ctx = true ∧ s.entry core jsVal ctx = some mappingObj ∧
      t = s.setMappings ctx ((s.getContextMappings ctx).insert
        (core.stringHash (createJSValueKey jsVal))
        (mappingObj.setAttribute "isRoot" (.boolean true)))) ∨
    ∃ object, core.accepted jsVal protoObj ctx = some object ∧ s.entry core jsVal ctx = none ∧
      t = (s.allocate address jsVal).setMappings ctx
        (registered core address now jsVal object (s.getContextMappings ctx)) := by
  cases context : core.hasProtoContext ctx with
  | false =>
    cases stack with
    | zero => simp [registerRoot] at returned
    | succ stack => exact .inl ⟨rfl, state_eq returned (by simp [registerRoot, context])⟩
  | true =>
    right
    cases entry : s.entry core jsVal ctx with
    | some mappingObj =>
      cases stack with
      | zero => simp [registerRoot] at returned
      | succ stack =>
        rw [registerRoot_present context entry] at returned
        cases returned
        exact .inl ⟨mappingObj, rfl, rfl, rfl⟩
    | none =>
      right
      -- without an entry the call leads to `registerMapping` and back, once or for ever
      induction stack generalizing held with
      | zero => simp [registerRoot] at returned
      | succ stack ih =>
        simp only [registerRoot, Call.withLock_recursive, context, if_true, Call.bind_apply,
          Call.get_apply, Option.bind_some, lookup_key, entry, Option.bind_eq_some_iff,
          Prod.exists] at returned
        obtain ⟨_, m, mapped, returned⟩ := returned
        rcases registerMapping_cases mapped with ⟨object, accepted, same⟩ | ⟨same, _⟩
        · rw [registerRoot_registered m same context returned]
          exact ⟨object, accepted, rfl, same⟩
        · rw [same] at returned
          exact ih returned

/-- What `unregisterRoot` does. -/
theorem unregisterRoot_cases
    (returned : unregisterRoot core .recursive jsVal ctx held s = some ((), t)) :
    t = s ∨ ∃ mappingObj, s.entry core jsVal ctx = some mappingObj ∧
      t = s.setMappings ctx ((s.getContextMappings ctx).insert
        (core.stringHash (createJSValueKey jsVal))
        (mappingObj.setAttribute "isRoot" (.boolean false))) := by
  cases context : core.hasProtoContext ctx with
  | false => exact .inl (state_eq returned (by simp [unregisterRoot, context]))
  | true =>
    cases entry : s.entry core jsVal ctx with
    | none =>
      exact .inl (state_eq returned (by simp [unregisterRoot, context, lookup_key, entry]))
    | some mappingObj =>
      exact .inr ⟨mappingObj, rfl, state_eq returned (by
        simp [unregisterRoot, context, lookup_key, entry])⟩

/-- What `registerWeakRef` does. -/
theorem registerWeakRef_cases
    (returned : registerWeakRef core .recursive address now jsVal protoObj ctx held s =
      some ((), t)) :
    (core.hasProtoContext ctx = false ∧ t = s) ∨ (core.hasProtoContext ctx = true ∧
      t = (s.allocate address jsVal).setMappings ctx ((s.getContextMappings ctx).insert
        (core.stringHash (createJSValueKey jsVal)) (weakMapping jsVal protoObj address now))) := by
  cases context : core.hasProtoContext ctx with
  | false => exact .inl ⟨rfl, state_eq returned (by simp [registerWeakRef, context])⟩
  | true => exact .inr ⟨rfl, state_eq returned (by simp [registerWeakRef, context])⟩

/-- What `unregisterWeakRef` does. -/
theorem unregisterWeakRef_cases
    (returned : unregisterWeakRef core .recursive jsVal ctx held s = some ((), t)) :
    (t = s ∧ (core.hasProtoContext ctx = true → ∀ mappingObj ∈ s.entry core jsVal ctx,
      mappingObj.flag "isWeakRef" = false)) ∨
    ∃ mappingObj, s.entry core jsVal ctx = some mappingObj ∧
      core.hasProtoContext ctx = true ∧ mappingObj.flag "isWeakRef" = true ∧
      t = s.setMappings ctx ((s.getContextMappings ctx).erase
        (core.stringHash (createJSValueKey jsVal))) := by
  cases context : core.hasProtoContext ctx with
  | false => exact .inl ⟨state_eq returned (by simp [unregisterWeakRef, context]), by simp⟩
  | true =>
    cases entry : s.entry core jsVal ctx with
    | none =>
      exact .inl ⟨state_eq returned (by simp [unregisterWeakRef, context, lookup_key, entry]), by simp⟩
    | some mappingObj =>
      cases weak : mappingObj.flag "isWeakRef" with
      | false =>
        refine .inl ⟨state_eq returned ?_, by simp [weak]⟩
        simp [unregisterWeakRef, context, lookup_key, entry, weak]
      | true =>
        refine .inr ⟨mappingObj, rfl, rfl, weak, state_eq returned ?_⟩
        simp [unregisterWeakRef, context, lookup_key, entry, weak]

variable [DecidableEq π]

/-- What `unregisterMapping` makes of the mappings: the entry goes, and the reverse entry of the
object it refers to. -/
def unregistered (core : Core π δ χ η) (jsVal : JSValue) (mappingObj : Object π δ)
    (ctxMappings : Mappings π δ η) : Mappings π δ η :=
  let newMappings := ctxMappings.erase (core.stringHash (createJSValueKey jsVal))
  match core.protoObj mappingObj with
  | some storedProtoObj => newMappings.erase (core.objectHash storedProtoObj)
  | none => newMappings

/-- What `unregisterMapping` does. -/
theorem unregisterMapping_cases
    (returned : unregisterMapping core .recursive jsVal ctx held s = some ((), t)) :
    (t = s ∧ (core.hasProtoContext ctx = true → s.entry core jsVal ctx = none)) ∨
    ∃ mappingObj, s.entry core jsVal ctx = some mappingObj ∧
      core.hasProtoContext ctx = true ∧
      t = s.setMappings ctx (unregistered core jsVal mappingObj (s.getContextMappings ctx)) := by
  cases context : core.hasProtoContext ctx with
  | false => exact .inl ⟨state_eq returned (by simp [unregisterMapping, context]), by simp⟩
  | true =>
    cases entry : s.entry core jsVal ctx with
    | none =>
      exact .inl ⟨state_eq returned (by simp [unregisterMapping, context, lookup_key, entry]), by simp⟩
    | some mappingObj =>
      refine .inr ⟨mappingObj, rfl, rfl, ?_⟩
      cases root : mappingObj.flag "isRoot" <;> cases stored : core.protoObj mappingObj <;>
        exact state_eq returned (by
          simp [unregisterMapping, unregisterRoot, context, lookup_key, entry, root, stored,
            unregistered])

/-- The object that the entry of a JS value refers to. -/
def State.protoObjectOf (core : Core π δ χ η) (s : State π δ χ η) (jsVal : JSValue) (ctx : χ) :
    Option π :=
  if core.hasProtoContext ctx then (s.entry core jsVal ctx).bind core.protoObj else none

theorem getProtoObject_apply (kind : MutexKind) :
    getProtoObject core kind jsVal ctx 0 s = some (s.protoObjectOf core jsVal ctx, s) := by
  cases context : core.hasProtoContext ctx with
  | false => simp [getProtoObject, State.protoObjectOf, context]
  | true =>
    cases entry : s.entry core jsVal ctx with
    | none =>
      simp [getProtoObject, State.protoObjectOf, context, entry, lookup_key]
    | some mappingObj =>
      simp [getProtoObject, State.protoObjectOf, context, entry, lookup_key]

omit [DecidableEq π] in
/-- `getJSValue` finds no pointer in a wrapper. -/
theorem getJSValue_apply (kind : MutexKind) (object : π) :
    getJSValue core kind object ctx 0 s = some (.null, s) := by
  cases context : core.hasProtoContext ctx with
  | false => simp [getJSValue, context]
  | true =>
    cases found : (s.getContextMappings ctx).lookup (core.objectHash object) <;>
      simp [getJSValue, extractExternalPointer, context, found]

end Specifications

end ProtoJS.GCBridge
