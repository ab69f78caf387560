import ProtoJS.Modules.CommonJSSteps

/-! # What a require returns

`require` creates a module object, caches it, and reads its exports back when the body has
finished; `wrapModule` creates another one and hands that one to the body. The exports of the
first object stay private to it: nothing in the cache and nothing a body has required leads to
them but the object itself. So what a require returns is what its body left in `module.exports`
only if the body read it back from the first object.
-/

namespace ProtoJS.Modules.CommonJSLoader

variable {env : Environment} {globalFilename : Option String} {s t : State} {f g : Frame}
  {outer : List Frame} {site : Site} {key filePath name : String} {a b : Address} {value : Value}

/-- The exports object of the module object that `require` caches. -/
def Frame.exportsObj (f : Frame) : Address := ⟨.require, f.record, .exports⟩

section Objects

/-- An object in the cache, or among the values that a body has required. -/
def State.Holds (s : State) (b : Address) : Prop :=
  (∃ key, s.moduleCache key = some (.object b)) ∨ ∃ f ∈ s.frames, .object b ∈ f.results

/-- A new module object touches no older object. -/
theorem createModuleObject_heap (below : a.number < s.allocated) :
    (createModuleObject s site filePath).heap a = s.heap a := by
  have other (part : Part) : a ≠ ⟨site, s.allocated, part⟩ := by
    rintro rfl
    exact absurd below (Nat.lt_irrefl _)
  simp only [createModuleObject, State.allocate, Function.update_of_ne (other _)]

theorem createModuleObject_exports :
    (createModuleObject s site filePath).heap ⟨site, s.allocated, .module⟩ "exports" =
      some (.object ⟨site, s.allocated, .exports⟩) := by
  simp [createModuleObject, State.allocate, moduleProperties]

private theorem moduleProperties_pointers {number : ℕ}
    (points : (moduleProperties site number filePath).lookup name = some (.object b)) :
    b.number = number ∧ (b.part = .exports → name = "exports") := by
  obtain ⟨before, after, same, _⟩ := List.lookup_eq_some_iff.mp points
  have member : (name, Value.object b) ∈ moduleProperties site number filePath := by
    rw [same]
    exact List.mem_append_right _ List.mem_cons_self
  simp only [moduleProperties, List.mem_cons, Prod.mk.injEq, Value.object.injEq, reduceCtorEq,
    and_false, false_or, or_false, List.not_mem_nil] at member
  rcases member with ⟨rfl, rfl⟩ | ⟨rfl, rfl⟩
  · exact ⟨rfl, fun _ => rfl⟩
  · exact ⟨rfl, nofun⟩

/-- The only new references of a new module object are to its own parts. -/
theorem createModuleObject_pointers
    (points : (createModuleObject s site filePath).heap a name = some (.object b)) :
    s.heap a name = some (.object b) ∨ b.number = s.allocated ∧
      (b.part = .exports → a = ⟨site, s.allocated, .module⟩ ∧ name = "exports") := by
  simp only [createModuleObject, State.allocate] at points
  by_cases module : a = ⟨site, s.allocated, .module⟩
  · right
    rw [module, Function.update_self] at points
    obtain ⟨number, only⟩ := moduleProperties_pointers points
    exact ⟨number, fun part => ⟨module, only part⟩⟩
  · rw [Function.update_of_ne module] at points
    by_cases exports : a = ⟨site, s.allocated, .exports⟩
    · rw [exports, Function.update_self] at points
      cases points
    · rw [Function.update_of_ne exports] at points
      by_cases children : a = ⟨site, s.allocated, .children⟩
      · rw [children, Function.update_self] at points
        cases points
      · rw [Function.update_of_ne children] at points
        exact .inl points

/-- Another new object has no references but to what is given with it. -/
theorem createObject_pointers {properties : List (String × Value)}
    (foreign : ∀ property ∈ properties, ∀ b, property.2 ≠ .object b)
    (points : (createObject s site properties).heap a name = some (.object b)) :
    s.heap a name = some (.object b) := by
  simp only [createObject, State.allocate] at points
  by_cases new : a = ⟨site, s.allocated, .plain⟩
  · rw [new, Function.update_self] at points
    obtain ⟨before, after, same, _⟩ := List.lookup_eq_some_iff.mp points
    refine absurd rfl (foreign (name, .object b) ?_ b)
    rw [same]
    exact List.mem_append_right _ List.mem_cons_self
  · rwa [Function.update_of_ne new] at points

theorem createObject_heap {properties : List (String × Value)} (below : a.number < s.allocated) :
    (createObject s site properties).heap a = s.heap a := by
  have other : a ≠ ⟨site, s.allocated, .plain⟩ := by
    rintro rfl
    exact absurd below (Nat.lt_irrefl _)
  simp only [createObject, State.allocate, Function.update_of_ne other]

end Objects

/-- An evaluation with nothing but what concerns its objects. -/
def Frame.core (f : Frame) : Frame :=
  { cacheKey := "", record := f.record, wrapper := f.wrapper, rest := [], origin := f.origin }

def State.cores (s : State) : List Frame := s.frames.map Frame.core

theorem cores_of_shapes (same : t.frames.map Frame.shape = s.frames.map Frame.shape) :
    t.cores = s.cores := by
  have parts := congrArg (List.map fun shape : String × ℕ × ℕ × List Stmt × Origin =>
    ({ cacheKey := "", record := shape.2.1, wrapper := shape.2.2.1, rest := [],
       origin := shape.2.2.2.2 } : Frame)) same
  rwa [List.map_map, List.map_map] at parts

/-- The body's last assignment to `module.exports` has read the exports of the module object that
`require` has cached for this very evaluation. -/
def Frame.ReadsBack (f : Frame) : Prop := f.origin = .property (.object f.moduleObj) "exports"

/-- How the two module objects of an evaluation stand. -/
structure Own (s : State) (f : Frame) : Prop where
  record : f.record < s.allocated
  wrapper : f.wrapper < s.allocated
  exports : s.heap f.moduleObj "exports" = some (.object f.exportsObj)
  /-- The exports of the cached object are private to it and to what the body writes. -/
  unheld : ¬s.Holds f.exportsObj
  unpointed : ∀ a name, s.heap a name = some (.object f.exportsObj) →
    a.site = .wrapModule ∨ a = f.moduleObj ∧ name = "exports"
  /-- The body has them in its own `module.exports` only by reading them back. -/
  wrapped : ∃ value, s.heap f.wrappedObj "exports" = some value ∧
    (value = .object f.exportsObj ↔ f.ReadsBack)

/-- What keeps the exports objects private. -/
structure Private (s : State) : Prop where
  heap : ∀ a name b, s.heap a name = some (.object b) → b.number < s.allocated
  holds : ∀ b, s.Holds b → b.number < s.allocated ∧ b.site ≠ .wrapModule
  records : (s.cores.map Frame.record).Nodup
  wrappers : (s.cores.map Frame.wrapper).Nodup
  own : ∀ f ∈ s.cores, Own s f

section Invariant

/-- Only the cached and required values change, by objects that are no private ones. -/
theorem Private.congr (privacy : Private s) (cores : t.cores = s.cores) (heap : t.heap = s.heap)
    (allocated : t.allocated = s.allocated)
    (holds : ∀ b, t.Holds b → s.Holds b ∨
      b.number < s.allocated ∧ b.site ≠ .wrapModule ∧ b.part ≠ .exports) : Private t := by
  refine ⟨?_, ?_, cores ▸ privacy.records, cores ▸ privacy.wrappers, ?_⟩
  · rw [heap, allocated]
    exact privacy.heap
  · intro b held
    rw [allocated]
    rcases holds b held with before | ⟨below, site, _⟩
    · exact privacy.holds b before
    · exact ⟨below, site⟩
  · intro f member
    have own := privacy.own f (cores ▸ member)
    refine ⟨allocated ▸ own.record, allocated ▸ own.wrapper, heap ▸ own.exports, ?_,
      heap ▸ own.unpointed, heap ▸ own.wrapped⟩
    intro held
    rcases holds _ held with before | ⟨_, _, part⟩
    · exact own.unheld before
    · exact part rfl

/-- New objects are no private ones, and nothing refers to a private one from them. -/
theorem Private.extend (privacy : Private s) (cores : t.cores = s.cores)
    (allocated : t.allocated = s.allocated + 1) (holds : ∀ b, t.Holds b → s.Holds b)
    (kept : ∀ a, a.number < s.allocated → t.heap a = s.heap a)
    (points : ∀ a name b, t.heap a name = some (.object b) →
      s.heap a name = some (.object b) ∨ b.number = s.allocated) : Private t := by
  refine ⟨?_, ?_, cores ▸ privacy.records, cores ▸ privacy.wrappers, ?_⟩
  · intro a name b there
    rw [allocated]
    rcases points a name b there with before | new
    · exact Nat.lt_succ_of_lt (privacy.heap a name b before)
    · omega
  · intro b held
    rw [allocated]
    exact ⟨Nat.lt_succ_of_lt (privacy.holds b (holds b held)).1, (privacy.holds b (holds b held)).2⟩
  · intro f member
    have own := privacy.own f (cores ▸ member)
    refine ⟨by rw [allocated]; exact Nat.lt_succ_of_lt own.record,
      by rw [allocated]; exact Nat.lt_succ_of_lt own.wrapper, ?_,
      fun held => own.unheld (holds _ held), ?_, ?_⟩
    · rw [kept f.moduleObj own.record]
      exact own.exports
    · intro a name there
      rcases points a name _ there with before | new
      · exact own.unpointed a name before
      · exact absurd new (Nat.ne_of_lt own.record)
    · rw [kept f.wrappedObj own.wrapper]
      exact own.wrapped

theorem Private.createModuleObject (privacy : Private s) :
    Private (CommonJSLoader.createModuleObject s site filePath) :=
  privacy.extend rfl rfl (fun _ => id) (fun _ => createModuleObject_heap)
    (fun _ _ _ there => (createModuleObject_pointers there).imp_right And.left)

theorem Private.createObject (privacy : Private s) {properties : List (String × Value)}
    (foreign : ∀ property ∈ properties, ∀ b, property.2 ≠ .object b) :
    Private (CommonJSLoader.createObject s site properties) :=
  privacy.extend rfl rfl (fun _ => id) (fun _ => createObject_heap)
    (fun _ _ _ there => .inl (createObject_pointers foreign there))

/-- The innermost body writes to one of the two objects it has been given. -/
theorem Private.write (privacy : Private s) (cores : s.cores = f.core :: outer.map Frame.core)
    (own : t.cores = g.core :: outer.map Frame.core) (record : g.record = f.record)
    (wrapper : g.wrapper = f.wrapper) (written : t.heap = (s.write a name value).heap)
    (allocated : t.allocated = s.allocated) (holds : ∀ b, t.Holds b → s.Holds b)
    (site : a.site = .wrapModule) (number : a.number = f.wrapper)
    (below : ∀ b, value = .object b → b.number < s.allocated)
    (wrapped : ∃ value, t.heap g.wrappedObj "exports" = some value ∧
      (value = .object g.exportsObj ↔ g.ReadsBack)) : Private t := by
  have other {address : Address} (ne : address ≠ a) : t.heap address = s.heap address := by
    rw [written]
    exact Function.update_of_ne ne ..
  have points (address : Address) (property : String) (b : Address)
      (there : t.heap address property = some (.object b)) :
      s.heap address property = some (.object b) ∨ address = a ∧ value = .object b := by
    by_cases same : address = a
    · subst same
      simp only [written, State.write, Function.update_self] at there
      by_cases named : property = name
      · rw [named, Function.update_self, Option.some.injEq] at there
        exact .inr ⟨rfl, there⟩
      · rw [Function.update_of_ne named] at there
        exact .inl there
    · rw [other same] at there
      exact .inl there
  have kept (h before : Frame) (record : h.record = before.record)
      (wrapper : h.wrapper = before.wrapper) (own : Own s before)
      (wrapped : ∃ value, t.heap h.wrappedObj "exports" = some value ∧
        (value = .object h.exportsObj ↔ h.ReadsBack)) : Own t h := by
    have moduleObj : h.moduleObj = before.moduleObj := by rw [Frame.moduleObj, record]; rfl
    have exportsObj : h.exportsObj = before.exportsObj := by rw [Frame.exportsObj, record]; rfl
    refine ⟨?_, ?_, ?_, ?_, ?_, wrapped⟩
    · rw [record, allocated]
      exact own.record
    · rw [wrapper, allocated]
      exact own.wrapper
    · rw [moduleObj, exportsObj, other (fun same => by rw [← same] at site; cases site)]
      exact own.exports
    · rw [exportsObj]
      exact fun held => own.unheld (holds _ held)
    · rw [moduleObj, exportsObj]
      intro address property there
      rcases points address property _ there with old | ⟨rfl, _⟩
      · exact own.unpointed address property old
      · exact .inl site
  have records := privacy.records
  have wrappers := privacy.wrappers
  have frames := privacy.own
  rw [cores] at records wrappers frames
  refine ⟨?_, ?_, ?_, ?_, ?_⟩
  · intro address property b there
    rw [allocated]
    rcases points address property b there with old | ⟨_, same⟩
    · exact privacy.heap address property b old
    · exact below b same
  · intro b held
    rw [allocated]
    exact privacy.holds b (holds b held)
  · rw [own, List.map_cons, show g.core.record = f.core.record from record]
    exact records
  · rw [own, List.map_cons, show g.core.wrapper = f.core.wrapper from wrapper]
    exact wrappers
  · intro h member
    rw [own] at member
    rcases List.mem_cons.mp member with rfl | member
    · exact kept g.core f.core record wrapper (frames f.core List.mem_cons_self) wrapped
    · have before := frames h (List.mem_cons_of_mem _ member)
      apply kept h h rfl rfl before
      have ne : h.wrappedObj ≠ a := by
        intro same
        have twice : h.wrapper = f.core.wrapper := by rw [← same] at number; exact number
        rw [List.map_cons, List.nodup_cons] at wrappers
        exact wrappers.1 (twice ▸ List.mem_map_of_mem member)
      rw [other ne]
      exact before.wrapped

/-- The innermost evaluation ends, and its exports object may be handed out. -/
theorem Private.pop (privacy : Private s) (cores : s.cores = f.core :: t.cores)
    (heap : t.heap = s.heap) (allocated : t.allocated = s.allocated)
    (holds : ∀ b, t.Holds b → s.Holds b ∨ b = f.exportsObj) : Private t := by
  have records := privacy.records
  have wrappers := privacy.wrappers
  have frames := privacy.own
  rw [cores] at records wrappers frames
  rw [List.map_cons, List.nodup_cons] at records wrappers
  refine ⟨?_, ?_, records.2, wrappers.2, ?_⟩
  · rw [heap, allocated]
    exact privacy.heap
  · intro b held
    rw [allocated]
    rcases holds b held with before | rfl
    · exact privacy.holds b before
    · exact ⟨(frames f.core List.mem_cons_self).record, nofun⟩
  · intro g member
    have own := frames g (List.mem_cons_of_mem _ member)
    refine ⟨allocated ▸ own.record, allocated ▸ own.wrapper, heap ▸ own.exports, ?_,
      heap ▸ own.unpointed, heap ▸ own.wrapped⟩
    intro held
    rcases holds _ held with before | same
    · exact own.unheld before
    · have twice : g.record = f.core.record := congrArg Address.number same
      exact records.1 (twice ▸ List.mem_map_of_mem member)

/-- A new evaluation whose objects nothing refers to yet. -/
theorem Private.push (privacy : Private s) (cores : t.cores = f.core :: s.cores)
    (heap : t.heap = s.heap) (allocated : t.allocated = s.allocated)
    (holds : ∀ b, t.Holds b → s.Holds b) (own : Own s f.core)
    (record : ∀ g ∈ s.cores, g.record ≠ f.record) (wrapper : ∀ g ∈ s.cores, g.wrapper ≠ f.wrapper) :
    Private t := by
  refine ⟨?_, ?_, ?_, ?_, ?_⟩
  · rw [heap, allocated]
    exact privacy.heap
  · intro b held
    rw [allocated]
    exact privacy.holds b (holds b held)
  · rw [cores, List.map_cons, List.nodup_cons]
    refine ⟨fun member => ?_, privacy.records⟩
    obtain ⟨g, there, same⟩ := List.mem_map.mp member
    exact record g there same
  · rw [cores, List.map_cons, List.nodup_cons]
    refine ⟨fun member => ?_, privacy.wrappers⟩
    obtain ⟨g, there, same⟩ := List.mem_map.mp member
    exact wrapper g there same
  · intro g member
    have before : Own s g := by
      rw [cores] at member
      rcases List.mem_cons.mp member with rfl | member
      · exact own
      · exact privacy.own g member
    exact ⟨allocated ▸ before.record, allocated ▸ before.wrapper, heap ▸ before.exports,
      fun held => before.unheld (holds _ held), heap ▸ before.unpointed, heap ▸ before.wrapped⟩

theorem holds_cache {entry : Option Value} (held : (s.cache key entry).Holds b) :
    s.Holds b ∨ entry = some (.object b) := by
  rcases held with ⟨other, cached⟩ | required
  · by_cases same : other = key
    · subst same
      rw [cache_self] at cached
      exact .inr cached
    · rw [cache_of_ne same] at cached
      exact .inl (.inl ⟨other, cached⟩)
  · exact .inl (.inr required)

theorem holds_deliver {outcome : Except String Value} (held : (deliver s outcome).Holds b) :
    s.Holds b ∨ outcome = .ok (.object b) := by
  rcases held with ⟨key, cached⟩ | ⟨g, member, required⟩
  · rw [deliver_moduleCache] at cached
    exact .inl (.inl ⟨key, cached⟩)
  · cases there : s.frames with
    | nil => simp [deliver, there] at member
    | cons f outer =>
      have before (h : Frame) (results : ∃ value, h.results = f.results ++ [value] ∧
          (value = .object b → outcome = .ok (.object b)) ∨ h.results = f.results)
          (same : (deliver s outcome).frames = h :: outer) :
          s.Holds b ∨ outcome = .ok (.object b) := by
        rw [same] at member
        rcases List.mem_cons.mp member with rfl | member
        · obtain ⟨value, ⟨appended, given⟩ | kept⟩ := results
          · rw [appended] at required
            rcases List.mem_append.mp required with old | new
            · exact .inl (.inr ⟨f, there ▸ List.mem_cons_self, old⟩)
            · exact .inr (given (List.mem_singleton.mp new).symm)
          · exact .inl (.inr ⟨f, there ▸ List.mem_cons_self, kept ▸ required⟩)
        · exact .inl (.inr ⟨g, there ▸ List.mem_cons_of_mem _ member, required⟩)
      cases outcome with
      | ok value =>
        refine before { f with results := f.results ++ [value] } ⟨value, .inl ⟨rfl, ?_⟩⟩ ?_
        · rintro rfl
          rfl
        · simp [deliver, there]
      | error text =>
        cases caught : f.catching with
        | true =>
          exact before { f with results := f.results ++ [.undefined] }
            ⟨.undefined, .inl ⟨rfl, by simp⟩⟩ (by simp [deliver, there, caught])
        | false =>
          exact before { f with thrown := some text } ⟨.undefined, .inr rfl⟩
            (by simp [deliver, there, caught])

theorem Private.deliver (privacy : Private s) {outcome : Except String Value}
    (harmless : ∀ b, outcome = .ok (.object b) → s.Holds b) :
    Private (CommonJSLoader.deliver s outcome) := by
  apply privacy.congr (cores_of_shapes deliver_shapes) deliver_heap deliver_allocated
  intro b held
  rcases holds_deliver held with before | same
  · exact .inl before
  · exact .inl (harmless b same)

theorem Private.cache (privacy : Private s) {entry : Option Value}
    (harmless : ∀ b, entry = some (.object b) →
      b.number < s.allocated ∧ b.site ≠ .wrapModule ∧ b.part ≠ .exports) :
    Private (s.cache key entry) :=
  privacy.congr rfl rfl rfl fun b held => (holds_cache held).imp_right (harmless b)

/-- Both new module objects have their exports, and nothing else leads to those of the first. -/
private theorem Private.own_begin (privacy : Private s) (body : List Stmt) :
    Own (createModuleObjects s key) (Frame.begin s key body).core := by
  have allocated : (createModuleObjects s key).allocated = s.allocated + 1 + 1 := rfl
  refine ⟨?_, ?_, ?_, ?_, ?_, ?_⟩
  · rw [allocated]
    exact Nat.lt_add_of_pos_right (Nat.succ_pos 1)
  · rw [allocated]
    exact Nat.lt_succ_self _
  · exact (congrFun (createModuleObject_heap (Nat.lt_succ_self s.allocated)) _).trans
      createModuleObject_exports
  · intro held
    rcases holds_cache (s := CommonJSLoader.createModuleObject s .require key) held with before | same
    · exact absurd (privacy.holds _ before).1 (Nat.lt_irrefl _)
    · cases same
  · intro a name there
    rcases createModuleObject_pointers there with before | ⟨number, _⟩
    · rcases createModuleObject_pointers before with before | ⟨_, only⟩
      · exact absurd (privacy.heap a name _ before) (Nat.lt_irrefl _)
      · exact .inr (only rfl)
    · exact absurd number (Nat.ne_of_lt (Nat.lt_succ_self s.allocated))
  · exact ⟨_, createModuleObject_exports, iff_of_false nofun nofun⟩

private theorem Private.createModuleObjects (privacy : Private s) :
    Private (CommonJSLoader.createModuleObjects s key) := by
  refine Private.createModuleObject (Private.cache privacy.createModuleObject ?_)
  rintro b same
  cases same
  exact ⟨Nat.lt_succ_self _, nofun, nofun⟩

private theorem Private.wrapModule (privacy : Private s) {source : String} :
    Private (CommonJSLoader.wrapModule env s key source) := by
  have created : Private (CommonJSLoader.createModuleObjects s key) := privacy.createModuleObjects
  have own (body : List Stmt) : Own (CommonJSLoader.createModuleObjects s key)
      (Frame.begin s key body).core := privacy.own_begin body
  obtain ⟨heap, made⟩ := createModuleObjects_eq s key
  unfold CommonJSLoader.wrapModule
  simp only [made] at created own ⊢
  cases env.evaluate source with
  | error text =>
    refine Private.deliver ?_ nofun
    refine created.congr rfl rfl rfl fun b held => .inl ?_
    rcases holds_cache held with before | same
    · exact before
    · cases same
  | ok body =>
    have old {g : Frame} (member : g ∈ s.cores) :
        g.record < s.allocated ∧ g.wrapper < s.allocated :=
      ⟨(privacy.own g member).record, (privacy.own g member).wrapper⟩
    refine created.push (f := Frame.begin s key body) rfl rfl rfl ?_ (own body) ?_ ?_
    · rintro b (cached | ⟨g, member, required⟩)
      · exact .inl cached
      · rcases List.mem_cons.mp member with rfl | member
        · cases required
        · exact .inr ⟨g, member, required⟩
    · intro g member
      exact Nat.ne_of_lt (old member).1
    · intro g member
      exact Nat.ne_of_lt (Nat.lt_succ_of_lt (old member).2)

theorem Private.requireImpl (privacy : Private s) (argument : Option String) :
    Private (CommonJSLoader.requireImpl env s argument) := by
  cases argument with
  | none => exact privacy.deliver nofun
  | some specifier =>
    have requested : Private (s.request specifier) :=
      privacy.congr rfl rfl rfl fun _ => .inl
    have answered := requires env (s.request specifier) specifier s.fromPath
    unfold CommonJSLoader.requireImpl
    simp only
    generalize require env (s.request specifier) specifier s.fromPath = answer at answered
    have literal (n : ℕ) : ∀ property ∈ [("Buffer", Value.foreign n)],
        ∀ b, property.2 ≠ .object b := by
      intro property member b
      rw [List.mem_singleton.mp member]
      nofun
    cases answered with
    | hit key value cached =>
      apply Private.deliver requested
      rintro b same
      cases same
      exact .inl ⟨key, cached⟩
    | hitBuffer key value n cached =>
      apply Private.deliver (requested.createObject (literal n))
      rintro b same
      cases same
      exact .inl ⟨key, cached⟩
    | outside key n absent bare named =>
      refine Private.deliver (requested.cache ?_) nofun
      nofun
    | buffer key n absent bare named =>
      refine Private.deliver (Private.cache (requested.createObject (literal n)) ?_) ?_
      · rintro b same
        cases same
        exact ⟨Nat.lt_succ_self _, nofun, nofun⟩
      · rintro b same
        cases same
        exact .inl ⟨key, cache_self⟩
    | thrown text => exact Private.deliver requested nofun
    | nativeThrown key text => exact Private.deliver requested.createModuleObject nofun
    | native key n absent typed =>
      refine Private.deliver (Private.cache requested.createModuleObject ?_) nofun
      nofun
    | evaluate source found absent opened => exact requested.wrapModule

/-- What an expression of a body evaluates to: an object that exists, and the private exports only
when they have been read back. -/
private theorem evalExpr_value {e : Expr} (env : Environment) (privacy : Private s) (own : Own s f)
    (held : ∀ b, .object b ∈ f.results → s.Holds b)
    (evaluated : (evalExpr env s f e).2 = some value) :
    (∀ b, value = .object b → b.number < (evalExpr env s f e).1.allocated) ∧
      (value = .object f.exportsObj ↔ e.origin f = .property (.object f.moduleObj) "exports") := by
  have required {index : ℕ} {b : Address} (same : f.results.getD index .undefined = .object b) :
      s.Holds b := by
    rw [List.getD_eq_getElem?_getD] at same
    cases there : f.results[index]? with
    | none =>
      rw [there] at same
      cases same
    | some received =>
      rw [there, Option.getD_some] at same
      exact held b (same ▸ List.mem_of_getElem? there)
  have outside (answer : Option ℕ) : ∀ b, (answer.map Value.foreign).getD .undefined ≠ .object b := by
    cases answer <;> nofun
  cases e with
  | literal n | filename | dirname =>
    cases evaluated
    exact ⟨nofun, iff_of_false nofun nofun⟩
  | emptyObject =>
    cases evaluated
    refine ⟨?_, iff_of_false nofun nofun⟩
    rintro b same
    cases same
    exact Nat.lt_succ_self _
  | exports | module =>
    cases evaluated
    refine ⟨?_, iff_of_false nofun nofun⟩
    rintro b same
    cases same
    exact own.wrapper
  | result index =>
    cases evaluated
    refine ⟨fun b same => (privacy.holds b (required same)).1, iff_of_false ?_ nofun⟩
    exact fun same => own.unheld (required same)
  | resultProperty index name =>
    change getProperty env s (f.results.getD index .undefined) name = some value at evaluated
    change _ ∧ (_ ↔ Origin.property (f.results.getD index .undefined) name = _)
    cases read : f.results.getD index .undefined with
    | undefined | null =>
      rw [read] at evaluated
      cases evaluated
    | boolean b | string text =>
      rw [read] at evaluated
      cases evaluated
      exact ⟨nofun, iff_of_false nofun nofun⟩
    | foreign n =>
      rw [read] at evaluated
      cases evaluated
      exact ⟨fun b same => absurd same (outside _ b), iff_of_false (outside _ _) nofun⟩
    | object a =>
      rw [read] at evaluated
      simp only [getProperty] at evaluated
      rw [Origin.property.injEq, Value.object.injEq]
      cases there : s.heap a name with
      | some found =>
        rw [there] at evaluated
        cases evaluated
        refine ⟨fun b same => privacy.heap a name b (same ▸ there), ?_, ?_⟩
        · rintro rfl
          rcases own.unpointed a name there with site | same
          · exact absurd site (privacy.holds a (required read)).2
          · exact same
        · rintro ⟨rfl, rfl⟩
          rw [own.exports, Option.some.injEq] at there
          exact there.symm
      | none =>
        rw [there] at evaluated
        cases evaluated
        refine ⟨fun b same => absurd same (outside _ b), iff_of_false (outside _ _) ?_⟩
        rintro ⟨rfl, rfl⟩
        rw [own.exports] at there
        cases there

private theorem cores_cons (there : s.frames = f :: outer) :
    s.cores = f.core :: outer.map Frame.core := by
  rw [State.cores, there, List.map_cons]

/-- The innermost frame is replaced by one of the same evaluation with the same values. -/
private theorem holds_setTop (there : s.frames = f :: outer) (results : g.results = f.results)
    (held : (s.setTop g).Holds b) : s.Holds b := by
  rcases held with cached | ⟨h, member, required⟩
  · exact .inl cached
  · rw [setTop_frames, there, List.tail_cons] at member
    rcases List.mem_cons.mp member with rfl | member
    · exact .inr ⟨f, there ▸ List.mem_cons_self, results ▸ required⟩
    · exact .inr ⟨h, there ▸ List.mem_cons_of_mem _ member, required⟩

private theorem Private.setTop (privacy : Private s) (there : s.frames = f :: outer)
    (core : g.core = f.core) (results : g.results = f.results) : Private (s.setTop g) := by
  refine privacy.congr ?_ rfl rfl fun b held => .inl (holds_setTop there results held)
  rw [cores_cons there, State.cores, setTop_frames, there, List.tail_cons, List.map_cons, core]

/-- Evaluating an expression keeps the exports objects private. -/
private theorem Private.evalExpr (env : Environment) (f : Frame) (privacy : Private s) (e : Expr) :
    Private (CommonJSLoader.evalExpr env s f e).1 := by
  rcases evalExpr_state env s f e with same | same <;> rw [same]
  · exact privacy
  · exact privacy.createObject (fun _ member => (List.not_mem_nil member).elim)

section Writes

variable (privacy : Private s) (there : s.frames = f :: outer) (record : g.record = f.record)
  (wrapper : g.wrapper = f.wrapper) (results : g.results = f.results)
  (below : ∀ b, value = .object b → b.number < s.allocated)
include privacy there record wrapper results below

/-- A write to the body's own exports. -/
private theorem Private.assignExports (origin : g.origin = f.origin) :
    Private ((s.setTop g).write ⟨.wrapModule, g.wrapper, .exports⟩ name value) := by
  have core : g.core = f.core := by simp only [Frame.core, record, wrapper, origin]
  have own : Own s g.core := core ▸ privacy.own f.core (cores_cons there ▸ List.mem_cons_self)
  refine privacy.write (cores_cons there) (g := g) ?_ record wrapper rfl rfl
    (fun b held => holds_setTop there results held) rfl wrapper below ?_
  · exact cores_cons (congrArg (g :: ·) (congrArg List.tail there))
  · obtain ⟨before, stored, iff⟩ := own.wrapped
    refine ⟨before, ?_, iff⟩
    exact (congrFun (Function.update_of_ne (by simp [Frame.wrappedObj]) _ _) _).trans stored

/-- A write to the body's own module object, its `exports` included. -/
private theorem Private.assignModule
    (origin : if name = "exports" then (value = .object g.exportsObj ↔ g.ReadsBack)
      else g.origin = f.origin) :
    Private ((s.setTop g).write g.wrappedObj name value) := by
  have own : Own s f.core := privacy.own f.core (cores_cons there ▸ List.mem_cons_self)
  refine privacy.write (cores_cons there) (g := g) ?_ record wrapper rfl rfl
    (fun b held => holds_setTop there results held) rfl wrapper below ?_
  · exact cores_cons (congrArg (g :: ·) (congrArg List.tail there))
  · simp only [State.write, Function.update_self]
    by_cases named : name = "exports"
    · rw [if_pos named] at origin
      subst named
      exact ⟨value, Function.update_self .., origin⟩
    · rw [if_neg named] at origin
      obtain ⟨before, stored, iff⟩ := own.wrapped
      have wrappedObj : g.wrappedObj = f.core.wrappedObj := by rw [Frame.wrappedObj, wrapper]; rfl
      have exportsObj : g.exportsObj = f.core.exportsObj := by rw [Frame.exportsObj, record]; rfl
      have moduleObj : g.moduleObj = f.core.moduleObj := by rw [Frame.moduleObj, record]; rfl
      refine ⟨before, ?_, ?_⟩
      · rw [Function.update_of_ne (Ne.symm named), wrappedObj]
        exact stored
      · rw [exportsObj, iff, Frame.ReadsBack, Frame.ReadsBack, origin, moduleObj]
        exact Iff.rfl

end Writes

private theorem Private.execute (privacy : Private s) {stmt : Stmt} {rest : List Stmt}
    (there : s.frames = f :: outer) :
    Private (CommonJSLoader.execute env s { f with rest := rest } stmt) := by
  have own : Own s { f with rest := rest } := by
    have before := privacy.own f.core (cores_cons there ▸ List.mem_cons_self)
    exact ⟨before.record, before.wrapper, before.exports, before.unheld, before.unpointed,
      before.wrapped⟩
  have held (b : Address) (member : .object b ∈ f.results) : s.Holds b :=
    .inr ⟨f, there ▸ List.mem_cons_self, member⟩
  -- the state in which the value of an expression is written, and the value
  have written {e : Expr} {next : State} {result : Option Value}
      (evaluated : CommonJSLoader.evalExpr env s { f with rest := rest } e = (next, result)) :
      Private next ∧ next.frames = f :: outer ∧ ∀ value, result = some value →
        (∀ b, value = .object b → b.number < next.allocated) ∧
        (value = .object f.exportsObj ↔
          e.origin { f with rest := rest } = .property (.object f.moduleObj) "exports") := by
    have after := privacy.evalExpr env { f with rest := rest } e
    have frames := (evalExpr_frames env s { f with rest := rest } e).trans there
    rw [evaluated] at after frames
    refine ⟨after, frames, fun value same => ?_⟩
    have result : (CommonJSLoader.evalExpr env s { f with rest := rest } e).2 = some value := by
      rw [evaluated, same]
    have stored := evalExpr_value env privacy own held result
    rw [evaluated] at stored
    exact stored
  cases stmt with
  | assignExports name e =>
    simp only [CommonJSLoader.execute]
    split
    · rename_i next value evaluated
      obtain ⟨after, frames, stored⟩ := written evaluated
      exact after.assignExports frames rfl rfl rfl (stored value rfl).1 rfl
    · rename_i next evaluated
      obtain ⟨after, frames, _⟩ := written evaluated
      exact after.setTop frames rfl rfl
  | assignModule name e =>
    simp only [CommonJSLoader.execute]
    split
    · rename_i next value evaluated
      obtain ⟨after, frames, stored⟩ := written evaluated
      by_cases named : name = "exports"
      · rw [if_pos named]
        refine Private.assignModule (g := { f with rest := rest, origin := _ }) after frames rfl rfl
          rfl (stored value rfl).1 ?_
        rw [if_pos named]
        exact (stored value rfl).2
      · rw [if_neg named]
        refine Private.assignModule (g := { f with rest := rest }) after frames rfl rfl rfl
          (stored value rfl).1 ?_
        rw [if_neg named]
    · rename_i next evaluated
      obtain ⟨after, frames, _⟩ := written evaluated
      exact after.setTop frames rfl rfl
  | throw text => exact privacy.setTop there rfl rfl
  | require argument caught =>
    exact Private.requireImpl (s := s.setTop { f with rest := rest, catching := caught })
      (privacy.setTop there rfl rfl) argument

/-- The mark that `wrapModule` leaves on its own module object. -/
private theorem Private.loaded (privacy : Private s) (there : s.frames = f :: outer) :
    Private (s.write f.wrappedObj "loaded" (.boolean true)) := by
  have same : s.setTop f = s := by rw [State.setTop, there, List.tail_cons, ← there]
  rw [← same]
  apply privacy.assignModule (g := f) there rfl rfl rfl (by simp)
  rw [if_neg (by decide)]

/-- What `require` reads back when the body has finished: the exports of its own module object. -/
private theorem Private.complete (privacy : Private s) (there : s.frames = f :: outer) :
    CommonJSLoader.complete s f = CommonJSLoader.deliver
      { (s.write f.wrappedObj "loaded" (.boolean true)).cache f.cacheKey
          (some (.object f.exportsObj)) with
        frames := s.frames.tail
        ended := (f.cacheKey, true) :: s.ended }
      (.ok (.object f.exportsObj)) := by
  have own := (privacy.loaded there).own f.core (cores_cons there ▸ List.mem_cons_self)
  have exports : (s.write f.wrappedObj "loaded" (.boolean true)).heap f.moduleObj "exports" =
      some (.object f.exportsObj) := own.exports
  rw [CommonJSLoader.complete, exports, Option.getD_some]

private theorem Private.run (privacy : Private s) : Private (CommonJSLoader.run env s) := by
  have popped {f : Frame} {outer : List Frame} (there : s.frames = f :: outer)
      (entry : Option Value) (ended : List (String × Bool))
      (only : ∀ b, entry = some (.object b) → b = f.exportsObj) :
      Private { (s.write f.wrappedObj "loaded" (.boolean true)).cache f.cacheKey entry with
        frames := s.frames.tail
        ended := ended } := by
    refine Private.pop (f := f) (privacy.loaded there) ?_ rfl rfl ?_
    · exact (cores_cons there).trans (by rw [there]; rfl)
    · rintro b (⟨key, cached⟩ | ⟨g, member, required⟩)
      · rcases holds_cache (s := s.write f.wrappedObj "loaded" (.boolean true))
          (.inl ⟨key, cached⟩) with before | same
        · exact .inl before
        · exact .inr (only b same)
      · exact .inl (.inr ⟨g, List.mem_of_mem_tail member, required⟩)
  have ran := runs env s
  generalize CommonJSLoader.run env s = t at ran ⊢
  cases ran with
  | idle => exact privacy
  | failed f outer text there => exact Private.deliver (popped there none _ (by simp)) (by simp)
  | completed f outer there =>
    rw [privacy.complete there]
    refine Private.deliver (popped there (some (.object f.exportsObj)) _ ?_) ?_
    · rintro b same
      cases same
      rfl
    · rintro b same
      cases same
      exact .inl ⟨f.cacheKey, cache_self⟩
  | executed f outer stmt rest there => exact privacy.execute there

theorem privacy_of_reachable (reachable : (loader env globalFilename).Reachable s) : Private s := by
  refine reachable.invariant (P := Private) ?_ ?_
  · constructor
    · intro a name b held
      cases held
    · rintro b (⟨key, cached⟩ | ⟨f, member, _⟩)
      · cases cached
      · cases member
    · exact List.nodup_nil
    · exact List.nodup_nil
    · intro f member
      cases member
  · intro s a _ _ holds
    cases a with
    | require argument => exact holds.requireImpl argument
    | run => exact holds.run

end Invariant

/-- The innermost body, or the main script, has just received the value from a require. -/
def State.Received (t : State) (value : Value) : Prop :=
  match t.frames with
  | [] => t.answers.getLast? = some (.ok value)
  | g :: _ => g.results.getLast? = some value

/-- From `s` to `t` the evaluation has ended, and its require has returned and cached the value
that the body left in its `module.exports`. -/
def Returns (s : State) (f : Frame) (t : State) : Prop :=
  ∃ value, s.heap f.wrappedObj "exports" = some value ∧ t.moduleCache f.cacheKey = some value ∧
    t.Received value

theorem received_deliver : (deliver s (.ok value)).Received value := by
  cases there : s.frames with
  | nil => simp [State.Received, deliver, there]
  | cons f outer => simp [State.Received, deliver_ok there]

/-- When a body has finished, its require returns and caches what the body left in its
`module.exports` exactly when the body had put there the exports of the other module object. -/
theorem returns_exports_iff (reachable : (loader env globalFilename).Reachable s)
    (there : s.frames = f :: outer) (quiet : f.thrown = none) (finished : f.rest = []) :
    Returns s f (next env s .run) ↔ f.ReadsBack := by
  have privacy := privacy_of_reachable reachable
  have own := privacy.own f.core (cores_cons there ▸ List.mem_cons_self)
  obtain ⟨left, stored, iff⟩ := own.wrapped
  change left = .object f.exportsObj ↔ f.ReadsBack at iff
  have step : next env s .run = _ :=
    (run_of_finished there quiet finished).trans (privacy.complete there)
  have cached : (next env s .run).moduleCache f.cacheKey = some (.object f.exportsObj) := by
    rw [step, deliver_moduleCache]
    exact cache_self
  have received : (next env s .run).Received (.object f.exportsObj) := step ▸ received_deliver
  constructor
  · rintro ⟨value, same, kept, _⟩
    apply iff.mp
    rw [cached] at kept
    exact Option.some.inj ((stored.symm.trans same).trans kept.symm)
  · intro readsBack
    rw [iff.mpr readsBack] at stored
    exact ⟨_, stored, cached, received⟩

section Modules

/-- One module next to the main script. -/
def oneModule (body : List Stmt) : Environment :=
  .ofFiles (.ofFiles [("/app/main.js", ""), ("/app/a.js", "a")] ["/app"]) fun source =>
    if source = "" then .ok [] else .ok body

/-- Its evaluation, at the end of the body. -/
def oneModuleFrame (results : List Value) (origin : Origin) : Frame :=
  { cacheKey := "/app/a.js", record := 0, wrapper := 1, rest := [], results := results,
    origin := origin }

/-- The module that requires itself and assigns what it finds there. -/
def readingBack : Environment :=
  oneModule [.require (some "./a.js") false, .assignModule "exports" (.resultProperty 0 "exports")]

theorem returns_exports_iff_readingBack :
    ∃ s f, (loader readingBack (some "/app/main.js")).Reachable s ∧ s.frames = [f] ∧
      f.thrown = none ∧ f.rest = [] ∧ Returns s f (next readingBack s .run) := by
  let m : Value := .object ⟨.require, 0, .module⟩
  obtain ⟨s, run, there⟩ := (loader readingBack (some "/app/main.js")).exists_run_of_replay
    (loader readingBack (some "/app/main.js")).initial [.require (some "./a.js"), .run, .run]
    (fun s => s.frames = [oneModuleFrame [m] (.property m "exports")]) (by decide)
  exact ⟨s, _, ⟨_, run⟩, there, rfl, rfl,
    (returns_exports_iff ⟨_, run⟩ there rfl rfl).mpr rfl⟩

/-- The module `exports.x = 1`. -/
def filling : Environment := oneModule [.assignExports "x" (.literal 1)]

/-- What it fills is the object in its `module.exports`, and its require returns another one. -/
theorem filled_exports_lost :
    ∃ s f, (loader filling (some "/app/main.js")).Reachable s ∧ s.frames = [f] ∧
      f.thrown = none ∧ f.rest = [] ∧
      s.heap f.wrappedObj "exports" = some (.object ⟨.wrapModule, f.wrapper, .exports⟩) ∧
      s.heap ⟨.wrapModule, f.wrapper, .exports⟩ "x" = some (.foreign 1) ∧
      (next filling s .run).Received (.object f.exportsObj) ∧
      (next filling s .run).heap f.exportsObj "x" = none ∧
      ¬Returns s f (next filling s .run) := by
  let f := oneModuleFrame [] .direct
  obtain ⟨s, run, there, left, filled, idle, received, cached, lost⟩ :=
    (loader filling (some "/app/main.js")).exists_run_of_replay
      (loader filling (some "/app/main.js")).initial [.require (some "./a.js"), .run]
      (fun s => s.frames = [f] ∧
        s.heap f.wrappedObj "exports" = some (.object ⟨.wrapModule, f.wrapper, .exports⟩) ∧
        s.heap ⟨.wrapModule, f.wrapper, .exports⟩ "x" = some (.foreign 1) ∧
        (next filling s .run).frames = [] ∧
        (next filling s .run).answers.getLast? = some (.ok (.object f.exportsObj)) ∧
        (next filling s .run).moduleCache f.cacheKey = some (.object f.exportsObj) ∧
        (next filling s .run).heap f.exportsObj "x" = none) (by decide)
  refine ⟨s, f, ⟨_, run⟩, there, rfl, rfl, left, filled, ?_, lost, ?_⟩
  · rw [State.Received, idle]
    exact received
  · rintro ⟨value, same, kept, _⟩
    rw [left, Option.some.injEq] at same
    rw [cached, Option.some.injEq, ← same] at kept
    exact absurd kept (by decide)

end Modules

end ProtoJS.Modules.CommonJSLoader
