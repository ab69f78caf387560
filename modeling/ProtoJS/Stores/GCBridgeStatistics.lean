import ProtoJS.Stores.GCBridgeConsistency

/-! # What the memory statistics count

`getMemoryStats` counts the entries of a sparse list that holds both directions of the mapping. An
entry under the key of a JS value has the flags that are counted, and the wrapper under the hash of
a ProtoObject has none, so the roots and the weak references are counted right; the total counts
the wrappers as well.
-/

namespace ProtoJS.GCBridge

section Lists

variable {η α ν : Type} [DecidableEq η] {m : AList fun _ : η => α} {q : α → Bool} {S : Set ν}

/-- Where the things of a set have different keys, and these are the keys of the entries with a
property, there are as many things as such entries. -/
theorem ncard_eq_countP (key : ν → η) (injective : S.InjOn key)
    (keys : ∀ k, (∃ v ∈ S, key v = k) ↔ ∃ object ∈ m.lookup k, q object = true) :
    S.ncard = (m.entries.map Sigma.snd).countP q := by
  have distinct : ((m.entries.filter fun entry => q entry.2).map Sigma.fst).Nodup :=
    m.keys_nodup.sublist (List.filter_sublist.map Sigma.fst)
  have image : key '' S = (((m.entries.filter fun entry => q entry.2).map Sigma.fst).toFinset :
      Set η) := by
    ext k
    rw [Set.mem_image, keys]
    simp only [AList.mem_lookup_iff, List.coe_toFinset, Set.mem_ofPred_eq, List.mem_map,
      List.mem_filter, Sigma.exists, exists_and_right, exists_eq_right]
  rw [← injective.ncard_image, image, Set.ncard_coe_finset,
    List.toFinset_card_of_nodup distinct, List.length_map, List.countP_map,
    List.countP_eq_length_filter]
  rfl

end Lists

variable {π δ χ η : Type}

/-- The mapping object was made for the JS value. -/
def MadeFor (cells : Pointer → Option JSValue) (mappingObj : Object π δ) (jsVal : JSValue) : Prop :=
  ∃ text, mappingObj "_jsValuePtr" = some (.wrapper text) ∧ Holds cells text jsVal

variable [DecidableEq χ] [DecidableEq η]

/-- The JS values that have a mapping object with a property. -/
def State.mapped (core : Core π δ χ η) (s : State π δ χ η) (ctx : χ) (q : Object π δ → Bool) :
    Set JSValue :=
  {jsVal | ∃ mappingObj ∈ s.entry core jsVal ctx,
    MadeFor s.cells mappingObj jsVal ∧ q mappingObj = true}

/-- An entry is the mapping object of a JS value, or the wrapper of a pointer under the hash of a
ProtoObject. -/
def Core.Sorted (core : Core π δ χ η) (cells : Pointer → Option JSValue)
    (ctxMappings : Mappings π δ η) : Prop :=
  ∀ key, ∀ object ∈ ctxMappings.lookup key,
    (∃ jsVal, key = core.stringHash (createJSValueKey jsVal) ∧ MadeFor cells object jsVal) ∨
    ∃ reference address, key = core.objectHash reference ∧
      object = createExternalPointerWrapper address

/-- No ProtoObject has a reverse entry. -/
def State.NoWrappers (core : Core π δ χ η) (s : State π δ χ η) (ctx : χ) : Prop :=
  ∀ reference, (s.getContextMappings ctx).lookup (core.objectHash reference) = none

section Counts

variable {core : Core π δ χ η} {s t : State π δ χ η} {ctx other : χ} {q : Object π δ → Bool}
  {cells later : Pointer → Option JSValue} {object : Object π δ} {jsVal : JSValue}

omit [DecidableEq χ] [DecidableEq η] in
theorem MadeFor.mono (kept : ∀ text jsVal, Holds cells text jsVal → Holds later text jsVal)
    (made : MadeFor cells object jsVal) : MadeFor later object jsVal := by
  obtain ⟨text, pointer, holds⟩ := made
  exact ⟨text, pointer, kept _ _ holds⟩

omit [DecidableEq χ] [DecidableEq η] in
theorem MadeFor.unique {other : JSValue} (left : MadeFor cells object jsVal)
    (right : MadeFor cells object other) : jsVal = other := by
  obtain ⟨text, pointer, holds⟩ := left
  obtain ⟨text', pointer', found⟩ := right
  rw [pointer] at pointer'
  cases pointer'
  exact holds.unique found

omit [DecidableEq χ] [DecidableEq η] in
theorem madeFor_weakMapping (s : State π δ χ η) (jsVal : JSValue) (protoObj : Option π)
    (address : Pointer) (now : δ) :
    MadeFor (s.allocate address jsVal).cells (weakMapping jsVal protoObj address now) jsVal :=
  ⟨externalPtrText address, by simp [weakMapping, Object.setAttribute], holds_new address⟩

omit [DecidableEq χ] in
theorem mem_of_mem_lookup_erase {ctxMappings : Mappings π δ η} {key removed : η}
    (found : object ∈ (ctxMappings.erase removed).lookup key) :
    object ∈ ctxMappings.lookup key := by
  by_cases same : key = removed
  · rw [same, AList.lookup_erase] at found
    cases found
  · rwa [AList.lookup_erase_ne same] at found

theorem ncard_mapped (sorted : core.Sorted s.cells (s.getContextMappings ctx))
    (wrappers : ∀ address, q (createExternalPointerWrapper address) = false) :
    (s.mapped core ctx q).ncard =
      ((s.getContextMappings ctx).entries.map Sigma.snd).countP q := by
  apply ncard_eq_countP fun jsVal => core.stringHash (createJSValueKey jsVal)
  · rintro v ⟨object, found, made, -⟩ w ⟨object', found', made', -⟩ same
    have entries : s.entry core v ctx = s.entry core w ctx := congrArg (AList.lookup · _) same
    rw [Option.mem_def] at found found'
    rw [← entries, found] at found'
    cases found'
    exact made.unique made'
  · intro key
    constructor
    · rintro ⟨jsVal, ⟨object, found, -, holds⟩, rfl⟩
      exact ⟨object, found, holds⟩
    · rintro ⟨object, found, holds⟩
      rcases sorted key object found with ⟨jsVal, rfl, made⟩ | ⟨reference, address, -, rfl⟩
      · exact ⟨jsVal, ⟨object, found, made, holds⟩, rfl⟩
      · rw [wrappers] at holds
        cases holds

/-- The entries are as many as the JS values with a mapping when none of them is a wrapper. -/
theorem ncard_mapped_eq_length_iff (collisionless : core.Collisionless)
    (sorted : core.Sorted s.cells (s.getContextMappings ctx)) :
    ((s.getContextMappings ctx).entries.map Sigma.snd).length =
        (s.mapped core ctx fun _ => true).ncard ↔ s.NoWrappers core ctx := by
  have pointers : s.mapped core ctx (fun _ => true) =
      s.mapped core ctx fun object => (object "_jsValuePtr").isSome := by
    ext jsVal
    refine exists_congr fun object => and_congr_right fun _ => and_congr_right fun made => ?_
    obtain ⟨text, pointer, -⟩ := made
    simp [pointer]
  rw [pointers, ncard_mapped sorted fun address => rfl, eq_comm, List.countP_eq_length]
  constructor
  · intro all reference
    by_contra present
    obtain ⟨object, found⟩ := Option.ne_none_iff_exists'.1 present
    have pointer := all object (List.mem_map.2 ⟨⟨_, object⟩, AList.mem_lookup_iff.1 found, rfl⟩)
    rcases sorted _ object found with ⟨jsVal, same, -⟩ | ⟨_, address, -, rfl⟩
    · exact collisionless.apart _ _ same.symm
    · cases pointer
  · rintro none object member
    obtain ⟨⟨key, object⟩, entry, rfl⟩ := List.mem_map.1 member
    have found : object ∈ (s.getContextMappings ctx).lookup key := AList.mem_lookup_iff.2 entry
    rcases sorted key object found with ⟨jsVal, -, text, pointer, -⟩ | ⟨reference, address, rfl, -⟩
    · simp [pointer]
    · rw [none] at found
      cases found

end Counts

section Reports

variable [DecidableEq π] [Zero δ] [Sub δ] [LT δ] [DecidableLT δ] {core : Core π δ χ η}
  {s t : State π δ χ η} {ctx : χ}

/-- The statistics are the numbers of the JS values that have a mapping, that are roots, and that
are registered as weak. -/
def State.CountsMappings (core : Core π δ χ η) (s : State π δ χ η) (ctx : χ) : Prop :=
  ∀ now, ∃ stats, getMemoryStats core .recursive now ctx 0 s = some (stats, s) ∧
    stats.totalJSValues = some (s.mapped core ctx fun _ => true).ncard ∧
    stats.registeredRoots = some (s.mapped core ctx (·.flag "isRoot")).ncard ∧
    stats.weakReferences = some (s.mapped core ctx (·.flag "isWeakRef")).ncard

/-- The roots and the weak references are always right, and the total is where there is no
wrapper. -/
theorem countsMappings_iff (collisionless : core.Collisionless)
    (context : core.hasProtoContext ctx = true)
    (sorted : core.Sorted s.cells (s.getContextMappings ctx)) :
    s.CountsMappings core ctx ↔ s.NoWrappers core ctx := by
  have roots := @ncard_mapped _ _ _ _ _ _ core s ctx (·.flag "isRoot") sorted fun _ => rfl
  have weak := @ncard_mapped _ _ _ _ _ _ core s ctx (·.flag "isWeakRef") sorted fun _ => rfl
  rw [← ncard_mapped_eq_length_iff collisionless sorted]
  constructor
  · intro counts
    obtain ⟨stats, called, total, -⟩ := counts 0
    simp only [getMemoryStats, detectLeaks, Call.withLock_recursive, context, if_true,
      Call.bind_apply, Call.get_apply, Option.bind_some, Call.pure_apply] at called
    cases called
    exact Option.some_inj.1 total
  · intro total now
    simp only [getMemoryStats, detectLeaks, Call.withLock_recursive, context, if_true,
      Call.bind_apply, Call.get_apply, Option.bind_some, Call.pure_apply, total, roots, weak]
    exact ⟨_, rfl, rfl, rfl, rfl⟩

end Reports

/-- What a call that takes an object into the mappings of a context, or none, does to the entries:
those that are new belong to a JS value, or are the wrapper of the object. -/
structure Effect (core : Core π δ χ η) (s t : State π δ χ η) (ctx : χ) (taken : Option π) :
    Prop where
  kept : ∀ text jsVal, Holds s.cells text jsVal → Holds t.cells text jsVal
  others : ∀ other ≠ ctx, t.getContextMappings other = s.getContextMappings other
  entries : ∀ key, ∀ object ∈ (t.getContextMappings ctx).lookup key,
    object ∈ (s.getContextMappings ctx).lookup key ∨
    (∃ jsVal, key = core.stringHash (createJSValueKey jsVal) ∧ MadeFor t.cells object jsVal) ∨
    ∃ reference ∈ taken, key = core.objectHash reference ∧
      ∃ address, object = createExternalPointerWrapper address
  wrapped : ∀ reference ∈ taken,
    ((t.getContextMappings ctx).lookup (core.objectHash reference)).isSome = true

section Effects

variable {core : Core π δ χ η} {s t : State π δ χ η} {ctx other : χ} {taken : Option π}
  {jsVal : JSValue} {address : Pointer} {object : Object π δ} {ctxMappings : Mappings π δ η}

theorem Effect.sorted (effect : Effect core s t ctx taken)
    (sorted : ∀ ctx, core.Sorted s.cells (s.getContextMappings ctx)) (other : χ) :
    core.Sorted t.cells (t.getContextMappings other) := by
  intro key object found
  have old (found : object ∈ (s.getContextMappings other).lookup key) :
      (∃ jsVal, key = core.stringHash (createJSValueKey jsVal) ∧ MadeFor t.cells object jsVal) ∨
      ∃ reference address, key = core.objectHash reference ∧
        object = createExternalPointerWrapper address := by
    rcases sorted other key object found with ⟨jsVal, same, made⟩ | wrapper
    · exact .inl ⟨jsVal, same, made.mono effect.kept⟩
    · exact .inr wrapper
  by_cases here : other = ctx
  · subst here
    rcases effect.entries key object found with before | made | ⟨reference, -, same, address, rfl⟩
    · exact old before
    · exact .inl made
    · exact .inr ⟨reference, address, same, rfl⟩
  · rw [effect.others other here] at found
    exact old found

/-- Where there was no wrapper, there is none exactly if the call takes no object. -/
theorem Effect.noWrappers_iff (effect : Effect core s t ctx taken)
    (collisionless : core.Collisionless)
    (context : taken.isSome = true → core.hasProtoContext ctx = true)
    (clean : ∀ ctx, core.hasProtoContext ctx = true → s.NoWrappers core ctx) :
    (∀ ctx, core.hasProtoContext ctx = true → t.NoWrappers core ctx) ↔ taken = none := by
  constructor
  · intro still
    by_contra present
    obtain ⟨reference, rfl⟩ := Option.ne_none_iff_exists'.1 present
    have wrapped := effect.wrapped reference rfl
    rw [still ctx (context rfl) reference] at wrapped
    cases wrapped
  · rintro rfl other also reference
    by_cases here : other = ctx
    · subst here
      by_contra present
      obtain ⟨object, found⟩ := Option.ne_none_iff_exists'.1 present
      rcases effect.entries _ object found with before | ⟨jsVal, same, -⟩ | ⟨_, taken, -⟩
      · rw [clean other also] at before
        cases before
      · exact collisionless.apart _ _ same.symm
      · cases taken
    · rw [effect.others other here]
      exact clean other also reference

theorem Effect.same : Effect core s s ctx none where
  kept _ _ := id
  others _ _ := rfl
  entries _ _ := .inl
  wrapped _ taken := by cases taken

/-- An entry is replaced by one that is made for a JS value with the key. -/
theorem Effect.insert {key : η} (own : key = core.stringHash (createJSValueKey jsVal))
    (made : MadeFor s.cells object jsVal) :
    Effect core s (s.setMappings ctx ((s.getContextMappings ctx).insert key object)) ctx none where
  kept _ _ := id
  others _ apart := getContextMappings_setMappings_of_ne apart
  entries other stored found := by
    rw [getContextMappings_setMappings] at found
    by_cases same : other = key
    · rw [same, AList.lookup_insert] at found
      cases found
      exact .inr (.inl ⟨jsVal, same.trans own, made⟩)
    · rw [AList.lookup_insert_ne same] at found
      exact .inl found
  wrapped _ taken := by cases taken

/-- Entries are removed. -/
theorem Effect.remove (fewer : ∀ key, ∀ object ∈ ctxMappings.lookup key,
    object ∈ (s.getContextMappings ctx).lookup key) :
    Effect core s (s.setMappings ctx ctxMappings) ctx none where
  kept _ _ := id
  others _ apart := getContextMappings_setMappings_of_ne apart
  entries key stored found := by
    rw [getContextMappings_setMappings] at found
    exact .inl (fewer key stored found)
  wrapped _ taken := by cases taken

/-- A new cell is no entry. -/
theorem Effect.allocate (fresh : s.cells address = none)
    (effect : Effect core (s.allocate address jsVal) t ctx taken) : Effect core s t ctx taken where
  kept text other holds := effect.kept text other (holds.allocate fresh)
  others := effect.others
  entries := effect.entries
  wrapped := effect.wrapped

theorem Effect.register (collisionless : core.Collisionless) (fresh : s.cells address = none)
    (now : δ) (reference : π) :
    Effect core s ((s.allocate address jsVal).setMappings ctx
      (registered core address now jsVal reference (s.getContextMappings ctx))) ctx
      (some reference) := by
  refine .allocate fresh ⟨fun _ _ => id, fun _ apart => ?_, fun key object found => ?_, ?_⟩
  · exact getContextMappings_setMappings_of_ne apart
  · rw [getContextMappings_setMappings, collisionless.lookup_registered] at found
    split at found
    · rename_i own
      cases found
      exact .inr (.inl ⟨jsVal, own, (describes_strongMapping address now).2⟩)
    · split at found
      · rename_i back
        cases found
        exact .inr (.inr ⟨reference, rfl, back, address, rfl⟩)
      · exact .inl found
  · rintro _ ⟨⟩
    rw [getContextMappings_setMappings, collisionless.lookup_registered,
      if_neg (collisionless.apart _ _).symm, if_pos rfl]
    rfl

/-- The first registration in a context maps one JS value. -/
theorem mapped_registered (collisionless : core.Collisionless)
    (empty : s.getContextMappings ctx = ∅) (address : Pointer) (now : δ) (reference : π) :
    ((s.allocate address jsVal).setMappings ctx
      (registered core address now jsVal reference (s.getContextMappings ctx))).mapped core ctx
      (fun _ => true) = {jsVal} := by
  have made := (@describes_strongMapping π δ jsVal reference s.cells address now).2
  ext other
  simp only [State.mapped, State.entry, getContextMappings_setMappings, and_true, empty,
    collisionless.lookup_registered, Set.mem_ofPred_eq, Set.mem_singleton_iff]
  constructor
  · rintro ⟨stored, found, own⟩
    split at found
    · cases found
      exact own.unique made
    · rw [if_neg (collisionless.apart _ _)] at found
      cases found
  · rintro rfl
    rw [if_pos rfl]
    exact ⟨_, rfl, made⟩

/-- The root flag is no part of what an entry is made for. -/
theorem Effect.setRoot (collisionless : core.Collisionless)
    (sorted : core.Sorted s.cells (s.getContextMappings ctx))
    (entry : s.entry core jsVal ctx = some object) (root : Bool) :
    Effect core s (s.setMappings ctx ((s.getContextMappings ctx).insert
      (core.stringHash (createJSValueKey jsVal)) (object.setAttribute "isRoot" (.boolean root))))
      ctx none := by
  rcases sorted _ object entry with ⟨owner, same, text, pointer, holds⟩ | ⟨_, _, same, -⟩
  · refine .insert same ⟨text, ?_, holds⟩
    rw [Object.setAttribute, Function.update_of_ne (by decide), pointer]
  · exact absurd same (collisionless.apart _ _)

end Effects

section Calls

variable [DecidableEq π] [Zero δ] [Sub δ] [LT δ] [DecidableLT δ] {core : Core π δ χ η}
  {s : State π δ χ η}

/-- Calls that register or unregister a mapping, a root or a weak reference. -/
def registrations (core : Core π δ χ η) : Machine (State π δ χ η) (Step π δ χ) :=
  (bridge core).restrict fun _ step => step.operation.subject.isSome = true

/-- What the calls do. -/
theorem effect_next (collisionless : core.Collisionless)
    (sorted : ∀ ctx, core.Sorted s.cells (s.getContextMappings ctx)) {step : Step π δ χ}
    (enabled : (registrations core).Enabled s step) :
    ∃ jsVal ctx, step.operation.subject = some (jsVal, ctx) ∧
      Effect core s ((registrations core).next s step) ctx (step.operation.accepts core s) := by
  obtain ⟨enabled, registers⟩ := enabled
  have returned := call_of_enabled enabled
  obtain ⟨stack, operation⟩ := step
  have fresh := enabled.1
  rw [registrations, Machine.restrict_next]
  generalize (bridge core).next s ⟨stack, operation⟩ = t at returned
  cases operation with
  | registerMapping address now jsVal protoObj ctx =>
    refine ⟨jsVal, ctx, rfl, ?_⟩
    rcases registerMapping_cases returned with ⟨object, accepted, rfl⟩ | ⟨rfl, accepted⟩
    · rw [Operation.accepts, accepted]
      exact .register collisionless fresh.2 now object
    · rw [Operation.accepts, accepted]
      exact .same
  | registerRoot address now jsVal protoObj ctx =>
    refine ⟨jsVal, ctx, rfl, ?_⟩
    rcases registerRoot_cases returned with
      ⟨context, rfl⟩ | ⟨mappingObj, context, entry, rfl⟩ | ⟨object, accepted, entry, rfl⟩
    · have accepted : core.accepted jsVal protoObj ctx = none := by simp [Core.accepted, context]
      rw [Operation.accepts, accepted, ite_self]
      exact .same
    · rw [Operation.accepts, entry, Option.isSome_some, if_pos rfl]
      exact .setRoot collisionless (sorted ctx) entry true
    · rw [Operation.accepts, entry, accepted, Option.isSome_none, if_neg Bool.false_ne_true]
      exact .register collisionless fresh.2 now object
  | unregisterRoot jsVal ctx =>
    refine ⟨jsVal, ctx, rfl, ?_⟩
    rcases unregisterRoot_cases returned with rfl | ⟨mappingObj, entry, rfl⟩
    · exact .same
    · exact .setRoot collisionless (sorted ctx) entry false
  | registerWeakRef address now jsVal protoObj ctx =>
    refine ⟨jsVal, ctx, rfl, ?_⟩
    rcases registerWeakRef_cases returned with ⟨_, rfl⟩ | ⟨_, rfl⟩
    · exact .same
    · exact .allocate fresh.2 (.insert rfl (madeFor_weakMapping s jsVal protoObj address now))
  | unregisterWeakRef jsVal ctx =>
    refine ⟨jsVal, ctx, rfl, ?_⟩
    rcases unregisterWeakRef_cases returned with ⟨rfl, _⟩ | ⟨mappingObj, _, _, _, rfl⟩
    · exact .same
    · exact .remove fun key object => mem_of_mem_lookup_erase
  | unregisterMapping jsVal ctx =>
    refine ⟨jsVal, ctx, rfl, ?_⟩
    rcases unregisterMapping_cases returned with ⟨rfl, _⟩ | ⟨mappingObj, _, _, rfl⟩
    · exact .same
    · refine .remove fun key object found => ?_
      rw [unregistered] at found
      split at found
      · exact mem_of_mem_lookup_erase (mem_of_mem_lookup_erase found)
      · exact mem_of_mem_lookup_erase found
  | _ => cases registers

omit [DecidableEq π] [Zero δ] [Sub δ] [LT δ] [DecidableLT δ] in
/-- Only a context with a ProtoContext takes an object in. -/
theorem hasProtoContext_of_accepts {operation : Operation π δ χ} {jsVal : JSValue} {ctx : χ}
    (subject : operation.subject = some (jsVal, ctx))
    (accepts : (operation.accepts core s).isSome = true) : core.hasProtoContext ctx = true := by
  obtain ⟨object, accepts⟩ := Option.isSome_iff_exists.1 accepts
  have context {jsVal : JSValue} {protoObj : Option π}
      (accepted : core.accepted jsVal protoObj ctx = some object) :
      core.hasProtoContext ctx = true := by
    rw [Core.accepted, Option.ite_none_right_eq_some] at accepted
    exact accepted.1.2
  cases operation with
  | registerMapping =>
    cases subject
    exact context accepts
  | registerRoot =>
    cases subject
    rw [Operation.accepts, Option.ite_none_left_eq_some] at accepts
    exact context accepts.2
  | _ => cases accepts

/-- In every reached state the entries are mapping objects of JS values and wrappers. -/
theorem sorted_of_reachable (collisionless : core.Collisionless)
    (reachable : (registrations core).Reachable s) (ctx : χ) :
    core.Sorted s.cells (s.getContextMappings ctx) := by
  refine reachable.invariant (P := fun s =>
    ∀ ctx, core.Sorted s.cells (s.getContextMappings ctx)) ?_ ?_ ctx
  · intro ctx key object found
    cases found
  · intro s step _ enabled sorted
    obtain ⟨jsVal, ctx, -, effect⟩ := effect_next collisionless sorted enabled
    exact effect.sorted sorted

/-- In a run of registrations and their removals, the statistics of every context are right in
every state reached exactly if no call takes a ProtoObject into the mappings. -/
theorem countsMappings_throughout_iff (collisionless : core.Collisionless)
    {steps : List (Step π δ χ)} (run : (registrations core).Run {} steps s) :
    (∀ prior rest mid, steps = prior ++ rest → (registrations core).Run {} prior mid →
        ∀ ctx, core.hasProtoContext ctx = true → mid.CountsMappings core ctx) ↔
      ((registrations core).restrict fun s step => step.operation.accepts core s = none).Run
        {} steps s := by
  have counts {s : State π δ χ η} (reachable : (registrations core).Reachable s) :
      (∀ ctx, core.hasProtoContext ctx = true → s.CountsMappings core ctx) ↔
        ∀ ctx, core.hasProtoContext ctx = true → s.NoWrappers core ctx :=
    forall₂_congr fun ctx context =>
      countsMappings_iff collisionless context (sorted_of_reachable collisionless reachable ctx)
  refine run.throughout_iff (P := fun s => ∀ ctx, core.hasProtoContext ctx = true →
    s.CountsMappings core ctx) .initial ?_ ?_
  · refine (counts .initial).2 ?_
    intro ctx _ reference
    rfl
  · intro s step reachable enabled right
    rw [counts reachable] at right
    rw [counts (reachable.next enabled)]
    obtain ⟨jsVal, ctx, subject, effect⟩ :=
      effect_next collisionless (sorted_of_reachable collisionless reachable) enabled
    exact effect.noWrappers_iff collisionless (hasProtoContext_of_accepts subject) right

/-- The integer 1 is registered as weak. -/
def oneWeak : Step ℕ ℤ Unit := ⟨0, .registerWeakRef 4096 0 ⟨1, .int⟩ (some 1) ()⟩

theorem countsMappings_oneWeak :
    ((registrations plainCore).next {} oneWeak).CountsMappings plainCore () := by
  have enabled : (registrations plainCore).Enabled {} oneWeak := by
    exact ⟨by decide, rfl⟩
  have run : (registrations plainCore).Run {} [oneWeak] _ := .single enabled
  refine (countsMappings_throughout_iff plainCore_collisionless run).2 ?_ [oneWeak] [] _ rfl run ()
    rfl
  exact .single ⟨enabled, rfl⟩

/-- One call of `registerMapping` is counted twice. -/
theorem one_mapping_counted_twice : ∃ s, (registrations plainCore).Run {} [oneMapped] s ∧
    s.mapped plainCore () (fun _ => true) = {⟨1, .int⟩} ∧
    (getMemoryStats plainCore .recursive 0 () 0 s).map (·.1.totalJSValues) = some (some 2) := by
  have enabled : (registrations plainCore).Enabled {} oneMapped := ⟨by decide, rfl⟩
  refine ⟨_, .single enabled, ?_, by decide⟩
  rcases registerMapping_cases (call_of_enabled enabled.1) with ⟨object, _, same⟩ | ⟨_, refused⟩
  · rw [registrations, Machine.restrict_next, same]
    exact mapped_registered plainCore_collisionless rfl 4096 0 object
  · cases refused

end Calls

end ProtoJS.GCBridge
