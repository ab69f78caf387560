import ProtoJS.Machine.TwoWay
import ProtoJS.Stores.GCBridgeValues

/-! # The two directions of the bridge

The mappings of a context, read as a map kept in two directions: the entry under the key of a JS
value says which ProtoObject was mapped to and which cell its value is in, and the entry of the
ProtoObject wraps the address of such a cell. Over sequences of `registerMapping` and
`unregisterMapping` the directions part exactly where a call changes an entry and leaves the
reverse entry of the object it referred to.
-/

namespace ProtoJS.GCBridge

section Pointers

private theorem digitChar_injOn {a b : ℕ} (small : a < 16) (also : b < 16)
    (same : Nat.digitChar a = Nat.digitChar b) : a = b := by
  have all : ∀ a b : Fin 16, Nat.digitChar a = Nat.digitChar b → a = b := by decide
  exact congrArg Fin.val (all ⟨a, small⟩ ⟨b, also⟩ same)

private theorem mod_pow_eq {b x y n : ℕ} (same : ∀ i < n, x / b ^ i % b = y / b ^ i % b) :
    x % b ^ n = y % b ^ n := by
  induction n with
  | zero => simp [Nat.mod_one]
  | succ n ih =>
    rw [Nat.mod_pow_succ, Nat.mod_pow_succ, ih fun i below => same i (by omega), same n (by omega)]

/-- Sixteen hexadecimal digits tell 64-bit pointers apart. -/
theorem hex16_injective : Function.Injective hex16 := by
  intro p q same
  have chars : (List.range 16).reverse.map (fun i => Nat.digitChar (p.toNat / 16 ^ i % 16)) =
      (List.range 16).reverse.map (fun i => Nat.digitChar (q.toNat / 16 ^ i % 16)) :=
    String.ofList_injective same
  have digits : ∀ i < 16, p.toNat / 16 ^ i % 16 = q.toNat / 16 ^ i % 16 := by
    intro i below
    apply digitChar_injOn (Nat.mod_lt _ (by decide)) (Nat.mod_lt _ (by decide))
    exact List.map_inj_left.mp chars i (by simpa using below)
  have whole := mod_pow_eq digits
  rw [Nat.mod_eq_of_lt (show p.toNat < 16 ^ 16 from p.isLt),
    Nat.mod_eq_of_lt (show q.toNat < 16 ^ 16 from q.isLt)] at whole
  exact BitVec.eq_of_toNat_eq whole

theorem externalPtrText_injective : Function.Injective externalPtrText := by
  intro p q same
  exact hex16_injective ((String.append_right_inj "0x").mp same)

/-- The text of a wrapper leads to a cell with the JS value. -/
def Holds (cells : Pointer → Option JSValue) (text : String) (jsVal : JSValue) : Prop :=
  ∃ address, text = externalPtrText address ∧ cells address = some jsVal

variable {cells : Pointer → Option JSValue} {text : String} {v w : JSValue}

theorem Holds.unique (left : Holds cells text v) (right : Holds cells text w) : v = w := by
  obtain ⟨address, rfl, stored⟩ := left
  obtain ⟨also, same, found⟩ := right
  rw [← externalPtrText_injective same, stored] at found
  cases found
  rfl

/-- A new cell leaves the others as they are. -/
theorem Holds.allocate {address : Pointer} (fresh : cells address = none)
    (holds : Holds cells text v) : Holds (Function.update cells address (some w)) text v := by
  obtain ⟨used, rfl, stored⟩ := holds
  have apart : used ≠ address := by
    rintro rfl
    rw [fresh] at stored
    cases stored
  exact ⟨used, rfl, by rw [Function.update_of_ne apart, stored]⟩

theorem holds_new (address : Pointer) :
    Holds (Function.update cells address (some v)) (externalPtrText address) v :=
  ⟨address, rfl, Function.update_self ..⟩

end Pointers

variable {π δ χ η : Type}

/-- The mapping object was made for the JS value and refers to the ProtoObject. -/
def Describes (cells : Pointer → Option JSValue) (mappingObj : Object π δ)
    (mapped : JSValue × π) : Prop :=
  mappingObj "protoObj" = some (.object (some mapped.2)) ∧
    ∃ text, mappingObj "_jsValuePtr" = some (.wrapper text) ∧ Holds cells text mapped.1

/-- The object is the wrapper of a pointer to the JS value. -/
def Wraps (cells : Pointer → Option JSValue) (wrapper : Object π δ) (jsVal : JSValue) : Prop :=
  ∃ text, wrapper "_externalPtr" = some (.text text) ∧ Holds cells text jsVal

section Objects

variable {cells later : Pointer → Option JSValue} {object : Object π δ} {mapped other : JSValue × π}
  {v w : JSValue}

theorem Describes.unique (left : Describes cells object mapped)
    (right : Describes cells object other) : mapped = other := by
  obtain ⟨refers, text, pointer, holds⟩ := left
  obtain ⟨same, text', pointer', found⟩ := right
  rw [refers] at same
  rw [pointer] at pointer'
  cases pointer'
  exact Prod.ext (holds.unique found) (by simpa using same)

theorem Wraps.unique (left : Wraps cells object v) (right : Wraps cells object w) : v = w := by
  obtain ⟨text, pointer, holds⟩ := left
  obtain ⟨text', pointer', found⟩ := right
  rw [pointer] at pointer'
  cases pointer'
  exact holds.unique found

theorem Describes.mono (kept : ∀ text jsVal, Holds cells text jsVal → Holds later text jsVal)
    (describes : Describes cells object mapped) : Describes later object mapped := by
  obtain ⟨refers, text, pointer, holds⟩ := describes
  exact ⟨refers, text, pointer, kept _ _ holds⟩

theorem Wraps.mono (kept : ∀ text jsVal, Holds cells text jsVal → Holds later text jsVal)
    (wraps : Wraps cells object v) : Wraps later object v := by
  obtain ⟨text, pointer, holds⟩ := wraps
  exact ⟨text, pointer, kept _ _ holds⟩

end Objects

variable [DecidableEq χ] [DecidableEq η]

/-- The forward entry of the JS value refers to the ProtoObject. -/
def State.Forward (core : Core π δ χ η) (s : State π δ χ η) (ctx : χ) (jsVal : JSValue)
    (object : π) : Prop :=
  ∃ mappingObj ∈ s.entry core jsVal ctx, Describes s.cells mappingObj (jsVal, object)

/-- The reverse entry of the ProtoObject holds the wrapper of the JS value. -/
def State.Reverse (core : Core π δ χ η) (s : State π δ χ η) (ctx : χ) (object : π)
    (jsVal : JSValue) : Prop :=
  ∃ wrapper ∈ (s.getContextMappings ctx).lookup (core.objectHash object),
    Wraps s.cells wrapper jsVal

/-- Both directions of a context say the same. -/
def State.Consistent (core : Core π δ χ η) (s : State π δ χ η) (ctx : χ) : Prop :=
  ∀ jsVal object, s.Reverse core ctx object jsVal ↔ s.Forward core ctx jsVal object

/-- No two JS values are mapped to one ProtoObject. -/
def State.OneValueEach (core : Core π δ χ η) (s : State π δ χ η) (ctx : χ) : Prop :=
  ∀ v w object, s.Forward core ctx v object → s.Forward core ctx w object → v = w

/-- The object in the entry under the key of a JS value. -/
def State.refersTo (core : Core π δ χ η) (s : State π δ χ η) (jsVal : JSValue) (ctx : χ) :
    Option π :=
  match (s.entry core jsVal ctx).bind (· "protoObj") with
  | some (.object reference) => reference
  | _ => none

/-- The call leaves a reverse entry behind: `registerMapping` when the entry under the key of the
value refers to another object, `unregisterMapping` when it refers to `PROTO_NONE`. -/
def Operation.Stale (core : Core π δ χ η) (s : State π δ χ η) : Operation π δ χ → Prop
  | .registerMapping _ _ jsVal protoObj ctx =>
    ∃ object ∈ core.accepted jsVal protoObj ctx,
      ∃ former ∈ s.refersTo core jsVal ctx, former ≠ object
  | .unregisterMapping jsVal ctx =>
    core.hasProtoContext ctx = true ∧ ∃ former ∈ s.refersTo core jsVal ctx,
      some former = core.protoNone
  | _ => False

/-- `registerMapping` or `unregisterMapping`. -/
def Operation.Maps : Operation π δ χ → Prop
  | .registerMapping .. | .unregisterMapping .. => True
  | _ => False

/-- No hash stands for two things. -/
structure Core.Collisionless (core : Core π δ χ η) : Prop where
  strings : Function.Injective core.stringHash
  objects : Function.Injective core.objectHash
  apart : ∀ text object, core.stringHash text ≠ core.objectHash object

section Views

variable {core : Core π δ χ η} {s t : State π δ χ η} {ctx other : χ}
  {view : TwoWay JSValue.payload π} {jsVal : JSValue} {object : π}

/-- The mappings of a context, as a map in two directions. -/
structure Represents (core : Core π δ χ η) (s : State π δ χ η) (ctx : χ)
    (view : TwoWay JSValue.payload π) : Prop where
  forward : ∀ jsVal, Option.Rel (Describes s.cells) (s.entry core jsVal ctx)
    (view.forward jsVal.payload)
  reverse : ∀ object, Option.Rel (Wraps s.cells)
    ((s.getContextMappings ctx).lookup (core.objectHash object)) (view.reverse object)

private theorem related_iff {α β : Type} {r : α → β → Prop} {a : Option α} {b : Option β}
    {y : β} (unique : ∀ x y z, r x y → r x z → y = z) (related : Option.Rel r a b) :
    (∃ x ∈ a, r x y) ↔ b = some y := by
  cases related with
  | none => simp
  | @some x z holds =>
    constructor
    · rintro ⟨_, ⟨⟩, also⟩
      rw [unique x z y holds also]
    · rintro ⟨⟩
      exact ⟨x, rfl, holds⟩

private theorem related_mono {α β : Type} {r r' : α → β → Prop} {a : Option α} {b : Option β}
    (kept : ∀ x y, r x y → r' x y) (related : Option.Rel r a b) : Option.Rel r' a b := by
  cases related with
  | none => exact .none
  | some holds => exact .some (kept _ _ holds)

theorem Represents.forward_iff (represents : Represents core s ctx view) :
    s.Forward core ctx jsVal object ↔ view.forward jsVal.payload = some (jsVal, object) :=
  related_iff (fun _ _ _ => Describes.unique) (represents.forward jsVal)

theorem Represents.reverse_iff (represents : Represents core s ctx view) :
    s.Reverse core ctx object jsVal ↔ view.reverse object = some jsVal :=
  related_iff (fun _ _ _ => Wraps.unique) (represents.reverse object)

theorem Represents.consistent_iff (represents : Represents core s ctx view) :
    s.Consistent core ctx ↔ view.Consistent := by
  simp only [State.Consistent, TwoWay.Consistent, represents.forward_iff, represents.reverse_iff]

theorem Represents.oneValueEach_iff (represents : Represents core s ctx view) :
    s.OneValueEach core ctx ↔ view.OneValueEach := by
  simp only [State.OneValueEach, TwoWay.OneValueEach, represents.forward_iff]

theorem Represents.refersTo (represents : Represents core s ctx view) :
    s.refersTo core jsVal ctx = (view.forward jsVal.payload).map Prod.snd := by
  have related := represents.forward jsVal
  rw [State.refersTo]
  revert related
  generalize s.entry core jsVal ctx = entry
  generalize view.forward jsVal.payload = stored
  rintro (⟨refers, _⟩ | _)
  · simp [refers]
  · rfl

/-- What keeps the mappings of a context and its cells keeps the view. -/
theorem Represents.mono (represents : Represents core s ctx view)
    (mappings : t.getContextMappings ctx = s.getContextMappings ctx)
    (kept : ∀ text jsVal, Holds s.cells text jsVal → Holds t.cells text jsVal) :
    Represents core t ctx view where
  forward jsVal := by
    rw [State.entry, mappings]
    exact related_mono (fun _ _ => Describes.mono kept) (represents.forward jsVal)
  reverse object := by
    rw [mappings]
    exact related_mono (fun _ _ => Wraps.mono kept) (represents.reverse object)

theorem represents_initial : Represents core ({} : State π δ χ η) ctx .empty where
  forward _ := .none
  reverse _ := .none

theorem describes_strongMapping {cells : Pointer → Option JSValue} (address : Pointer) (now : δ) :
    Describes (Function.update cells address (some jsVal))
      ((strongMapping jsVal (some object) address now).setAttribute "isRoot" (.boolean true))
      (jsVal, object) := by
  refine ⟨?_, externalPtrText address, ?_, holds_new address⟩ <;>
    simp [strongMapping, Object.setAttribute]

theorem wraps_createExternalPointerWrapper {cells : Pointer → Option JSValue}
    (address : Pointer) : Wraps (Function.update cells address (some jsVal))
      (createExternalPointerWrapper address : Object π δ) jsVal :=
  ⟨externalPtrText address, by simp [createExternalPointerWrapper, Object.setAttribute],
    holds_new address⟩

variable [DecidableEq π]

omit [DecidableEq χ] [DecidableEq η] [DecidableEq π] in
theorem Core.Collisionless.key_eq_iff (collisionless : core.Collisionless) {v w : JSValue} :
    core.stringHash (createJSValueKey v) = core.stringHash (createJSValueKey w) ↔
      v.payload = w.payload :=
  collisionless.strings.eq_iff.trans createJSValueKey_eq_iff

omit [DecidableEq χ] [DecidableEq π] in
theorem Core.Collisionless.lookup_registered (collisionless : core.Collisionless)
    {address : Pointer} {now : δ} {ctxMappings : Mappings π δ η} (key : η) :
    (registered core address now jsVal object ctxMappings).lookup key =
      if key = core.stringHash (createJSValueKey jsVal) then
        some ((strongMapping jsVal (some object) address now).setAttribute "isRoot" (.boolean true))
      else if key = core.objectHash object then some (createExternalPointerWrapper address)
      else ctxMappings.lookup key := by
  rw [registered, AList.lookup_insert_ne (collisionless.apart _ object), AList.lookup_insert,
    Option.getD_some]
  by_cases own : key = core.stringHash (createJSValueKey jsVal)
  · rw [if_pos own, own, AList.lookup_insert]
  · rw [if_neg own, AList.lookup_insert_ne own]
    by_cases back : key = core.objectHash object
    · rw [if_pos back, back, AList.lookup_insert]
    · rw [if_neg back, AList.lookup_insert_ne back, AList.lookup_insert_ne own]

/-- A registration in the bridge is one in the view. -/
theorem Represents.registered (represents : Represents core s ctx view)
    (collisionless : core.Collisionless) {address : Pointer} (fresh : s.cells address = none)
    (now : δ) :
    Represents core ((s.allocate address jsVal).setMappings ctx
      (registered core address now jsVal object (s.getContextMappings ctx))) ctx
      (view.register jsVal object) where
  forward other := by
    rw [State.entry, getContextMappings_setMappings, collisionless.lookup_registered,
      TwoWay.forward_register]
    by_cases own : other.payload = jsVal.payload
    · rw [if_pos (collisionless.key_eq_iff.mpr own), own, Function.update_self]
      exact .some (describes_strongMapping address now)
    · rw [if_neg (mt collisionless.key_eq_iff.mp own), if_neg (collisionless.apart _ object),
        Function.update_of_ne own]
      exact related_mono (fun _ _ => Describes.mono fun _ _ => Holds.allocate fresh)
        (represents.forward other)
  reverse other := by
    rw [getContextMappings_setMappings, collisionless.lookup_registered, TwoWay.reverse_register,
      if_neg (collisionless.apart _ other).symm]
    by_cases own : other = object
    · rw [if_pos (congrArg _ own), own, Function.update_self]
      exact .some (wraps_createExternalPointerWrapper address)
    · rw [if_neg (collisionless.objects.ne own), Function.update_of_ne own]
      exact related_mono (fun _ _ => Wraps.mono fun _ _ => Holds.allocate fresh)
        (represents.reverse other)

omit [DecidableEq π] in
/-- An entry that is removed is removed from the view. -/
theorem Represents.forgotten (represents : Represents core s ctx view)
    (collisionless : core.Collisionless) (jsVal : JSValue) :
    Represents core (s.setMappings ctx ((s.getContextMappings ctx).erase
      (core.stringHash (createJSValueKey jsVal)))) ctx (view.forget jsVal.payload) where
  forward other := by
    rw [State.entry, getContextMappings_setMappings, TwoWay.forward_forget]
    by_cases own : other.payload = jsVal.payload
    · rw [collisionless.key_eq_iff.mpr own, AList.lookup_erase, own, Function.update_self]
      exact .none
    · rw [AList.lookup_erase_ne (mt collisionless.key_eq_iff.mp own), Function.update_of_ne own]
      exact represents.forward other
  reverse other := by
    rw [getContextMappings_setMappings, TwoWay.reverse_forget,
      AList.lookup_erase_ne (collisionless.apart _ other).symm]
    exact represents.reverse other

/-- So is the way back of an object that is removed with the entry. -/
theorem Represents.released (represents : Represents core s ctx view)
    (collisionless : core.Collisionless) :
    Represents core (s.setMappings ctx (((s.getContextMappings ctx).erase
      (core.stringHash (createJSValueKey jsVal))).erase (core.objectHash object))) ctx
      (view.release jsVal.payload object) where
  forward other := by
    have forgotten := (represents.forgotten collisionless jsVal).forward other
    rw [State.entry, getContextMappings_setMappings] at forgotten ⊢
    rw [AList.lookup_erase_ne (collisionless.apart _ object)]
    exact forgotten
  reverse other := by
    have forgotten := (represents.forgotten collisionless jsVal).reverse other
    rw [getContextMappings_setMappings] at forgotten ⊢
    rw [TwoWay.reverse_release]
    by_cases own : other = object
    · rw [own, AList.lookup_erase, Function.update_self]
      exact .none
    · rw [AList.lookup_erase_ne (collisionless.objects.ne own), Function.update_of_ne own]
      exact forgotten

/-- The removal of an entry in the bridge takes the way back of its object along, if that is not
`PROTO_NONE`. -/
theorem Represents.unregistered (represents : Represents core s ctx view)
    (collisionless : core.Collisionless) {mappingObj : Object π δ}
    (refers : mappingObj "protoObj" = some (.object (some object))) :
    Represents core
      (s.setMappings ctx (unregistered core jsVal mappingObj (s.getContextMappings ctx))) ctx
      (if some object = core.protoNone then view.forget jsVal.payload
        else view.release jsVal.payload object) := by
  have stored : core.protoObj mappingObj = if some object = core.protoNone then none
      else some object := by
    simp [Core.protoObj, refers, Core.present]
  rw [GCBridge.unregistered, stored]
  by_cases missing : some object = core.protoNone
  · rw [if_pos missing, if_pos missing]
    exact represents.forgotten collisionless jsVal
  · rw [if_neg missing, if_neg missing]
    exact represents.released collisionless

end Views

section Runs

variable {core : Core π δ χ η} {s t : State π δ χ η} {ctx : χ}
  {views : χ → TwoWay JSValue.payload π} {jsVal : JSValue} {object : π}

/-- The views after a call, and when their directions still agree. -/
def Answers (core : Core π δ χ η) (s t : State π δ χ η) (views : χ → TwoWay JSValue.payload π)
    (operation : Operation π δ χ) : Prop :=
  ∃ later : χ → TwoWay JSValue.payload π, (∀ ctx, Represents core t ctx (later ctx)) ∧
    ((∀ ctx, (views ctx).Consistent) → (∀ ctx, (later ctx).OneValueEach) →
      ((∀ ctx, (later ctx).Consistent) ↔ ¬operation.Stale core s))

private theorem answers_same {operation : Operation π δ χ}
    (represents : ∀ ctx, Represents core s ctx (views ctx)) (clean : ¬operation.Stale core s) :
    Answers core s s views operation :=
  ⟨views, represents, fun consistent _ => iff_of_true consistent clean⟩

/-- Only the view of one context changes. -/
private theorem answers_update {operation : Operation π δ χ} {view : TwoWay JSValue.payload π}
    (represents : ∀ ctx, Represents core s ctx (views ctx)) (after : Represents core t ctx view)
    (others : ∀ other, other ≠ ctx → t.getContextMappings other = s.getContextMappings other)
    (kept : ∀ text jsVal, Holds s.cells text jsVal → Holds t.cells text jsVal)
    (agree : (views ctx).Consistent → view.OneValueEach →
      (view.Consistent ↔ ¬operation.Stale core s)) : Answers core s t views operation := by
  refine ⟨Function.update views ctx view, ?_, ?_⟩
  · rw [Function.forall_update_iff views fun ctx view => Represents core t ctx view]
    exact ⟨after, fun other apart => (represents other).mono (others other apart) kept⟩
  · intro consistent one
    rw [Function.forall_update_iff views fun _ view => view.OneValueEach] at one
    rw [Function.forall_update_iff views fun _ view => view.Consistent,
      and_iff_left fun other _ => consistent other]
    exact agree (consistent ctx) one.1

variable [DecidableEq π]

theorem answers_registerMapping (collisionless : core.Collisionless)
    (represents : ∀ ctx, Represents core s ctx (views ctx)) {address : Pointer} {now : δ}
    {protoObj : Option π} {stack : ℕ} (fresh : s.cells address = none)
    (returned : registerMapping core .recursive address now jsVal protoObj ctx stack 0 s =
      some ((), t)) :
    Answers core s t views (.registerMapping address now jsVal protoObj ctx) := by
  rcases registerMapping_cases returned with ⟨object, accepted, rfl⟩ | ⟨rfl, accepted⟩
  · refine answers_update represents ((represents ctx).registered collisionless fresh now) ?_ ?_ ?_
    · intro other apart
      exact getContextMappings_setMappings_of_ne apart
    · exact fun _ _ => Holds.allocate fresh
    · intro consistent one
      rw [TwoWay.consistent_register_iff consistent one]
      simp only [Operation.Stale, accepted, (represents ctx).refersTo, Option.mem_def,
        Option.map_eq_some_iff]
      constructor
      · rintro clean ⟨_, ⟨⟩, _, ⟨stored, found, rfl⟩, different⟩
        exact different (clean stored found)
      · intro clean stored found
        by_contra different
        exact clean ⟨object, rfl, stored.2, ⟨stored, found, rfl⟩, different⟩
  · exact answers_same represents (by simp [Operation.Stale, accepted])

theorem answers_unregisterMapping (collisionless : core.Collisionless)
    (represents : ∀ ctx, Represents core s ctx (views ctx))
    (returned : unregisterMapping core .recursive jsVal ctx 0 s = some ((), t)) :
    Answers core s t views (.unregisterMapping jsVal ctx) := by
  have related := (represents ctx).forward jsVal
  have refersTo : s.refersTo core jsVal ctx = _ := (represents ctx).refersTo
  rcases unregisterMapping_cases returned with ⟨rfl, absent⟩ | ⟨mappingObj, entry, context, rfl⟩
  · apply answers_same represents
    rintro ⟨context, former, found, _⟩
    rw [State.refersTo, absent context] at found
    cases found
  · rw [entry] at related
    cases stored : (views ctx).forward jsVal.payload with
    | none =>
      rw [stored] at related
      cases related
    | some mapped =>
      rw [stored] at related refersTo
      cases related with
      | some describes =>
      refine answers_update represents
        ((represents ctx).unregistered collisionless describes.1) ?_ (fun _ _ => id) ?_
      · intro other apart
        exact getContextMappings_setMappings_of_ne apart
      · intro consistent _
        have stale : Operation.Stale core s (.unregisterMapping jsVal ctx) ↔
            some mapped.2 = core.protoNone := by
          simp [Operation.Stale, context, refersTo]
        rw [stale]
        by_cases missing : some mapped.2 = core.protoNone
        · rw [if_pos missing, TwoWay.consistent_forget_iff consistent, stored]
          simp [missing]
        · rw [if_neg missing]
          exact iff_of_true (TwoWay.consistent_release consistent stored) missing

variable [Zero δ] [Sub δ] [LT δ] [DecidableLT δ]

/-- Calls of `registerMapping` and `unregisterMapping` that leave no two JS values mapped to one
ProtoObject. -/
def mappingCalls (core : Core π δ χ η) : Machine (State π δ χ η) (Step π δ χ) :=
  (bridge core).restrict fun s step =>
    step.operation.Maps ∧ ∀ ctx, ((bridge core).next s step).OneValueEach core ctx

theorem answers_next (collisionless : core.Collisionless)
    (represents : ∀ ctx, Represents core s ctx (views ctx)) {step : Step π δ χ}
    (enabled : (mappingCalls core).Enabled s step) :
    Answers core s ((mappingCalls core).next s step) views step.operation := by
  obtain ⟨enabled, maps, _⟩ := enabled
  have returned := call_of_enabled enabled
  obtain ⟨stack, operation⟩ := step
  cases operation with
  | registerMapping address now jsVal protoObj ctx =>
    exact answers_registerMapping collisionless represents enabled.1.2 returned
  | unregisterMapping jsVal ctx => exact answers_unregisterMapping collisionless represents returned
  | _ => cases maps

/-- In every reached state the mappings of a context are a map in two directions. -/
theorem exists_views (collisionless : core.Collisionless)
    (reachable : (mappingCalls core).Reachable s) :
    ∃ views : χ → TwoWay JSValue.payload π, ∀ ctx, Represents core s ctx (views ctx) := by
  refine reachable.invariant (P := fun s => ∃ views : χ → TwoWay JSValue.payload π,
    ∀ ctx, Represents core s ctx (views ctx)) ⟨_, fun _ => represents_initial⟩ ?_
  rintro s step _ enabled ⟨views, represents⟩
  obtain ⟨later, after, _⟩ := answers_next collisionless represents enabled
  exact ⟨later, after⟩

/-- A call keeps both directions in agreement exactly if it leaves no reverse entry behind. -/
theorem consistent_next_iff (collisionless : core.Collisionless)
    (reachable : (mappingCalls core).Reachable s) {step : Step π δ χ}
    (enabled : (mappingCalls core).Enabled s step) (consistent : ∀ ctx, s.Consistent core ctx) :
    (∀ ctx, ((mappingCalls core).next s step).Consistent core ctx) ↔
      ¬step.operation.Stale core s := by
  obtain ⟨views, represents⟩ := exists_views collisionless reachable
  obtain ⟨later, after, agree⟩ := answers_next collisionless represents enabled
  simp only [(after _).consistent_iff]
  apply agree
  · intro ctx
    exact (represents ctx).consistent_iff.mp (consistent ctx)
  · intro ctx
    exact (after ctx).oneValueEach_iff.mp (enabled.2.2 ctx)

/-- In a run of `registerMapping` and `unregisterMapping` calls that never maps two JS values to
one ProtoObject, both directions say the same in every state reached exactly if no call leaves a
reverse entry behind. -/
theorem consistent_throughout_iff (collisionless : core.Collisionless) {steps : List (Step π δ χ)}
    (run : (mappingCalls core).Run {} steps s) :
    (∀ prior rest mid, steps = prior ++ rest → (mappingCalls core).Run {} prior mid →
        ∀ ctx, mid.Consistent core ctx) ↔
      ((mappingCalls core).restrict fun s step => ¬step.operation.Stale core s).Run {} steps s := by
  refine run.throughout_iff (P := fun s => ∀ ctx, s.Consistent core ctx) .initial ?_ ?_
  · intro ctx
    exact (represents_initial.consistent_iff).mpr TwoWay.consistent_empty
  · intro s step reachable enabled consistent
    exact consistent_next_iff collisionless reachable enabled consistent

/-- A registration in a reached state, as it is seen by the machine of the calls. -/
theorem Represents.next (collisionless : core.Collisionless) {view : TwoWay JSValue.payload π}
    (represents : Represents core s ctx view) {stack : ℕ} {address : Pointer} {now : δ}
    (enabled : (bridge core).Enabled s
      ⟨stack, .registerMapping address now jsVal (some object) ctx⟩)
    (accepted : core.accepted jsVal (some object) ctx = some object) :
    Represents core
      ((bridge core).next s ⟨stack, .registerMapping address now jsVal (some object) ctx⟩) ctx
      (view.register jsVal object) := by
  rcases registerMapping_cases (call_of_enabled enabled) with ⟨also, taken, same⟩ | ⟨_, refused⟩
  · rw [accepted] at taken
    cases taken
    rw [same]
    exact represents.registered collisionless enabled.1.2 now
  · rw [accepted] at refused
    cases refused

theorem plainCore_collisionless : plainCore.Collisionless where
  strings := Sum.inl_injective
  objects := Sum.inr_injective
  apart _ _ := Sum.inl_ne_inr

/-- The integer 1 is mapped to ProtoObject 2. -/
def oneRemapped : Step ℕ ℤ Unit := ⟨2, .registerMapping 4112 0 ⟨1, .int⟩ (some 2) ()⟩

/-- What the views hold while only the integer 1 has been mapped. -/
private theorem only_register (view : TwoWay JSValue.payload ℕ) (value : JSValue)
    (only : ∀ other object, view.forward other.payload = some (other, object) → other = value)
    (object : ℕ) : (view.register value object).OneValueEach ∧
      ∀ other former, (view.register value object).forward other.payload = some (other, former) →
        other = value := by
  have after : ∀ other former,
      (view.register value object).forward other.payload = some (other, former) →
        other = value := by
    intro other former
    rw [TwoWay.forward_register]
    by_cases own : other.payload = value.payload
    · rw [own, Function.update_self]
      rintro ⟨⟩
      rfl
    · rw [Function.update_of_ne own]
      exact only other former
  refine ⟨?_, after⟩
  intro v w p left right
  rw [after v p left, after w p right]

private theorem enabled_oneMapped : (mappingCalls plainCore).Enabled {} oneMapped ∧
    Represents plainCore ((bridge plainCore).next {} oneMapped) ()
      (TwoWay.empty.register ⟨1, .int⟩ 1) := by
  have enabled : (bridge plainCore).Enabled {} oneMapped := by decide
  have after := represents_initial.next plainCore_collisionless enabled rfl
  refine ⟨⟨enabled, trivial, fun _ => after.oneValueEach_iff.mpr ?_⟩, after⟩
  exact (only_register _ _ (by simp [TwoWay.empty]) 1).1

theorem consistent_throughout_iff_oneMapped :
    ((bridge plainCore).next {} oneMapped).Consistent plainCore () := by
  have run : (mappingCalls plainCore).Run {} [oneMapped] _ := .single enabled_oneMapped.1
  refine (consistent_throughout_iff plainCore_collisionless run).mpr ?_ [oneMapped] [] _ rfl run ()
  refine .single ⟨enabled_oneMapped.1, ?_⟩
  rintro ⟨object, _, former, found, _⟩
  cases found

/-- After the integer 1 is mapped to ProtoObject 1 and then to ProtoObject 2, the reverse entry of
ProtoObject 1 still holds the integer, whose entry refers to ProtoObject 2. -/
theorem reverse_left_behind : ∃ s, (mappingCalls plainCore).Run {} [oneMapped, oneRemapped] s ∧
    s.Reverse plainCore () 1 ⟨1, .int⟩ ∧ ¬s.Forward plainCore () ⟨1, .int⟩ 1 := by
  obtain ⟨first, represents⟩ := enabled_oneMapped
  have enabled : (bridge plainCore).Enabled ((bridge plainCore).next {} oneMapped) oneRemapped := by
    decide
  have after := represents.next plainCore_collisionless enabled rfl
  have only := (only_register .empty ⟨1, .int⟩ (by simp [TwoWay.empty]) 1).2
  refine ⟨_, .cons first (.single ⟨enabled, trivial, fun _ => ?_⟩), ?_, ?_⟩
  · exact after.oneValueEach_iff.mpr (only_register _ _ only 2).1
  · apply after.reverse_iff.mpr
    rw [TwoWay.reverse_register, Function.update_of_ne (by decide), TwoWay.reverse_register,
      Function.update_self]
  · intro forward
    have stored := after.forward_iff.mp forward
    rw [TwoWay.forward_register, Function.update_self] at stored
    cases stored

end Runs

end ProtoJS.GCBridge
