import ProtoJS.Modules.CommonJSSteps

/-! # The module cache over whole runs

A path is put into the cache before its evaluation begins and taken out only when that evaluation
throws, so an active path is always cached and never evaluated a second time. Each evaluation
carries out fewer statements than its body has, and only paths that some body requires can be
under evaluation inside of another one, so a weight of the active evaluations decreases with
every step and every require ends.
-/

namespace ProtoJS.Modules.CommonJSLoader

open ModuleResolver

variable {env : Environment} {globalFilename : Option String} {s t : State} {f g : Frame}
  {outer : List Frame} {specifier key : String}

/-- The path of a JavaScript module: no native library, and not the cache key that a bare
specifier has been given. -/
def State.JavaScriptPath (s : State) (key : String) : Prop :=
  typeOfPath key ≠ .native ∧
    ∀ r ∈ s.requests, isBareSpecifier r.specifier = true →
      key ≠ "umd:" ++ r.specifier ∧ key ≠ "builtin:" ++ r.specifier

/-- The latest evaluation of the path that has ended completed. -/
def State.Completed (s : State) (key : String) : Prop := s.ended.lookup key = some true

/-- What an evaluation has put into the cache. -/
def Frame.entry (f : Frame) : String × Address := (f.cacheKey, f.moduleObj)

def State.entries (s : State) : List (String × Address) := s.frames.map Frame.entry

theorem active_eq : s.active = s.entries.map Prod.fst := by
  rw [State.entries, List.map_map]
  rfl

/-- How the cache stands to the evaluations. -/
structure Caching (s : State) : Prop where
  nodup : s.active.Nodup
  /-- The path of an active evaluation holds the module object. -/
  entries : ∀ e ∈ s.entries, e.1 ≠ "" ∧ s.moduleCache e.1 = some (.object e.2)
  settled : ∀ key ∉ s.active, s.JavaScriptPath key →
    ((s.moduleCache key).isSome ↔ s.Completed key)

section Invariant

theorem entries_of_shapes (same : t.frames.map Frame.shape = s.frames.map Frame.shape) :
    t.entries = s.entries := by
  have parts := congrArg
    (List.map fun shape => (shape.1, (⟨.require, shape.2.1, .module⟩ : Address))) same
  rwa [List.map_map, List.map_map] at parts

@[simp] theorem deliver_entries {outcome : Except String Value} :
    (deliver s outcome).entries = s.entries := entries_of_shapes deliver_shapes

/-- A path under evaluation is in the cache. -/
theorem Caching.cached_of_active (caching : Caching s) (active : key ∈ s.active) :
    key ≠ "" ∧ ∃ value, s.moduleCache key = some value := by
  rw [active_eq] at active
  obtain ⟨e, member, rfl⟩ := List.mem_map.mp active
  exact ⟨(caching.entries e member).1, _, (caching.entries e member).2⟩

/-- What touches no evaluation and adds only entries of other modules keeps the invariant. -/
theorem Caching.congr (caching : Caching s) (entries : t.entries = s.entries)
    (ended : t.ended = s.ended) (requests : ∀ r ∈ s.requests, r ∈ t.requests)
    (cache : ∀ key, t.moduleCache key = s.moduleCache key ∨
      s.moduleCache key = none ∧ ¬t.JavaScriptPath key) : Caching t := by
  have active : t.active = s.active := by rw [active_eq, active_eq, entries]
  refine ⟨active ▸ caching.nodup, ?_, ?_⟩
  · intro e member
    obtain ⟨named, cached⟩ := caching.entries e (entries ▸ member)
    refine ⟨named, ?_⟩
    rcases cache e.1 with kept | ⟨absent, _⟩
    · rw [kept, cached]
    · rw [cached] at absent
      cases absent
  · intro key idle path
    rcases cache key with kept | ⟨_, other⟩
    · rw [kept, State.Completed, ended]
      exact caching.settled key (active ▸ idle)
        ⟨path.1, fun r member => path.2 r (requests r member)⟩
    · exact absurd path other

/-- An evaluation begins on a path that is not cached. -/
theorem Caching.begin (caching : Caching s) {address : Address} (found : key ≠ "")
    (absent : s.moduleCache key = none) (entries : t.entries = (key, address) :: s.entries)
    (ended : t.ended = s.ended) (requests : t.requests = s.requests)
    (cache : t.moduleCache = Function.update s.moduleCache key (some (.object address))) :
    Caching t := by
  have idle : key ∉ s.active := by
    intro active
    obtain ⟨_, value, there⟩ := caching.cached_of_active active
    rw [absent] at there
    cases there
  have active : t.active = key :: s.active := by rw [active_eq, active_eq, entries]; rfl
  refine ⟨active ▸ List.nodup_cons.mpr ⟨idle, caching.nodup⟩, ?_, ?_⟩
  · intro e member
    rw [entries] at member
    rcases List.mem_cons.mp member with rfl | member
    · exact ⟨found, by rw [cache, Function.update_self]⟩
    · obtain ⟨named, cached⟩ := caching.entries e member
      have other : e.1 ≠ key := by
        intro same
        exact idle (active_eq ▸ same ▸ List.mem_map_of_mem member)
      exact ⟨named, by rw [cache, Function.update_of_ne other, cached]⟩
  · intro other idle' path
    rw [active, List.mem_cons, not_or] at idle'
    rw [cache, Function.update_of_ne idle'.1, State.Completed, ended]
    exact caching.settled other idle'.2 ⟨path.1, requests ▸ path.2⟩

/-- The innermost evaluation ends: its path is cached exactly when it has completed. -/
theorem Caching.finish (key : String) (address : Address) (entry : Option Value)
    (caching : Caching s)
    (entries : s.entries = (key, address) :: t.entries)
    (ended : t.ended = (key, entry.isSome) :: s.ended) (requests : t.requests = s.requests)
    (cache : t.moduleCache = Function.update s.moduleCache key entry) : Caching t := by
  have active : s.active = key :: t.active := by rw [active_eq, active_eq, entries]; rfl
  have nodup := caching.nodup
  rw [active, List.nodup_cons] at nodup
  refine ⟨nodup.2, ?_, ?_⟩
  · intro e member
    obtain ⟨named, cached⟩ := caching.entries e (entries ▸ List.mem_cons_of_mem _ member)
    have other : e.1 ≠ key := by
      intro same
      exact nodup.1 (active_eq ▸ same ▸ List.mem_map_of_mem member)
    exact ⟨named, by rw [cache, Function.update_of_ne other, cached]⟩
  · intro other idle path
    rw [cache, State.Completed, ended]
    by_cases same : other = key
    · subst same
      rw [Function.update_self, List.lookup_cons_self, Option.some.injEq]
    · rw [Function.update_of_ne same, List.lookup_cons, beq_false_of_ne same]
      refine caching.settled other ?_ ⟨path.1, requests ▸ path.2⟩
      rw [active, List.mem_cons, not_or]
      exact ⟨same, idle⟩

/-- A path that is not cached is evaluated, unless it has a syntax error. -/
theorem Caching.wrapModule {source : String} (caching : Caching s) (found : key ≠ "")
    (absent : s.moduleCache key = none) :
    Caching (CommonJSLoader.wrapModule env s key source) := by
  obtain ⟨heap, created⟩ := createModuleObjects_eq s key
  have begun (body : List Stmt) : Caching
      { createModuleObjects s key with frames := .begin s key body :: s.frames } := by
    rw [created]
    exact caching.begin found absent rfl rfl rfl rfl
  unfold CommonJSLoader.wrapModule
  simp only [created] at begun ⊢
  cases env.evaluate source with
  | error text =>
    refine Caching.finish key ⟨.require, s.allocated, .module⟩ none (begun []) ?_ ?_ ?_ ?_
    · rw [deliver_entries]
      rfl
    · rw [deliver_ended]
      rfl
    · rw [deliver_requests]
      rfl
    · rw [deliver_moduleCache]
      rfl
  | ok body => exact begun body

/-- Entries that are no paths of JavaScript modules do not matter. -/
private theorem Caching.add (caching : Caching s) {value : Value} (absent : s.moduleCache key = none)
    (other : ¬s.JavaScriptPath key) (entries : t.entries = s.entries) (ended : t.ended = s.ended)
    (requests : t.requests = s.requests)
    (cache : t.moduleCache = Function.update s.moduleCache key (some value)) : Caching t := by
  refine caching.congr entries ended (fun r member => requests ▸ member) fun other' => ?_
  by_cases same : other' = key
  · subst same
    exact .inr ⟨absent, fun path => other ⟨path.1, requests ▸ path.2⟩⟩
  · exact .inl (by rw [cache, Function.update_of_ne same])

theorem Caching.deliver (caching : Caching s) (outcome : Except String Value) :
    Caching (CommonJSLoader.deliver s outcome) :=
  caching.congr deliver_entries deliver_ended (by simp) (fun _ => .inl (by simp))

theorem Caching.requireImpl (caching : Caching s) (argument : Option String) :
    Caching (CommonJSLoader.requireImpl env s argument) := by
  cases argument with
  | none => exact caching.deliver _
  | some specifier =>
    have requested : Caching (s.request specifier) :=
      caching.congr rfl rfl (fun r member => List.mem_append_left _ member) (fun _ => .inl rfl)
    have asked : ⟨s.active.head?, specifier, s.fromPath⟩ ∈ (s.request specifier).requests :=
      List.mem_append_right _ (List.mem_singleton_self _)
    have answered := requires env (s.request specifier) specifier s.fromPath
    unfold CommonJSLoader.requireImpl
    simp only
    generalize require env (s.request specifier) specifier s.fromPath = answer at answered
    cases answered with
    | hit key value cached => exact requested.deliver _
    | thrown text => exact requested.deliver _
    | hitBuffer key value n cached =>
      apply Caching.deliver
      exact requested.congr rfl rfl (fun _ => id) (fun _ => .inl rfl)
    | nativeThrown key text =>
      apply Caching.deliver
      exact requested.congr rfl rfl (fun _ => id) (fun _ => .inl rfl)
    | outside key n absent bare named =>
      have other : ¬(s.request specifier).JavaScriptPath key := by
        intro path
        have distinct := path.2 _ asked bare
        exact named.elim distinct.1 distinct.2
      apply Caching.deliver
      exact requested.add absent other rfl rfl rfl rfl
    | buffer key n absent bare named =>
      have other : ¬(s.request specifier).JavaScriptPath key :=
        fun path => (path.2 _ asked bare).2 named
      apply Caching.deliver
      exact requested.add absent other rfl rfl rfl rfl
    | native key n absent typed =>
      apply Caching.deliver
      exact requested.add absent (fun path => path.1 typed) rfl rfl rfl rfl
    | evaluate source found absent opened => exact requested.wrapModule found absent

/-- What a statement of a body writes does not concern the cache. -/
private theorem Caching.execute (caching : Caching s) {stmt : Stmt} {rest : List Stmt}
    (there : s.frames = f :: outer) :
    Caching (CommonJSLoader.execute env s { f with rest := rest } stmt) := by
  have top {t : State} {g : Frame} (frames : t.frames = g :: s.frames.tail)
      (same : g.entry = f.entry) : t.entries = s.entries := by
    rw [State.entries, State.entries, frames, there, List.map_cons, List.map_cons, same,
      List.tail_cons]
  rcases execute_cases env s { f with rest := rest } stmt with
    ⟨g, heap, allocated, _, key, record, same⟩ | ⟨argument, caught, _, same⟩ <;> rw [same]
  · have entry : g.entry = f.entry := by rw [Frame.entry, key, Frame.moduleObj, record]; rfl
    exact caching.congr (top rfl entry) rfl (fun _ => id) (fun _ => .inl rfl)
  · have moved : Caching (s.setTop { f with rest := rest, catching := caught }) :=
      caching.congr (top rfl rfl) rfl (fun _ => id) (fun _ => .inl rfl)
    exact moved.requireImpl argument

private theorem Caching.run (caching : Caching s) : Caching (CommonJSLoader.run env s) := by
  have ended (f : Frame) (outer : List Frame) (there : s.frames = f :: outer)
      (entry : Option Value) : Caching
      { (s.write f.wrappedObj "loaded" (.boolean true)).cache f.cacheKey entry with
        frames := s.frames.tail
        ended := (f.cacheKey, entry.isSome) :: s.ended } := by
    refine .finish f.cacheKey f.moduleObj entry caching ?_ rfl rfl rfl
    rw [State.entries, there]
    rfl
  have ran := runs env s
  generalize CommonJSLoader.run env s = t at ran ⊢
  cases ran with
  | idle => exact caching
  | failed f outer text there => exact (ended f outer there none).deliver _
  | completed f outer there => exact (ended f outer there (some _)).deliver _
  | executed f outer stmt rest there => exact caching.execute there

theorem caching (reachable : (loader env globalFilename).Reachable s) : Caching s := by
  refine reachable.invariant (P := Caching) ?_ ?_
  · refine ⟨List.nodup_nil, ?_, ?_⟩
    · intro e member
      cases member
    · intro key _ _
      exact iff_of_false nofun nofun
  · intro s a _ _ holds
    cases a with
    | require argument => exact holds.requireImpl argument
    | run => exact holds.run

end Invariant

/-- A nested require of a path under evaluation gets what the cache holds. -/
theorem answered_from_cache (reachable : (loader env globalFilename).Reachable s)
    (there : s.frames = f :: outer) (quiet : f.thrown = none) {caught : Bool} {rest : List Stmt}
    (statements : f.rest = .require (some specifier) caught :: rest)
    (path : isBareSpecifier specifier = false)
    (active : (resolve env.fileSystem specifier s.fromPath).filePath ∈ s.active) :
    ∃ value, s.moduleCache (resolve env.fileSystem specifier s.fromPath).filePath = some value ∧
      (run env s).frames =
        { f with rest := rest, catching := caught, results := f.results ++ [value] } :: outer ∧
      (run env s).ended = s.ended := by
  obtain ⟨found, value, cached⟩ := (caching reachable).cached_of_active active
  refine ⟨value, cached, ?_⟩
  have top : ((s.setTop { f with rest := rest, catching := caught }).request specifier).frames =
      { f with rest := rest, catching := caught } :: outer := by
    simp [State.request, there]
  have hit : require env ((s.setTop { f with rest := rest, catching := caught }).request specifier)
      specifier s.fromPath =
      ((s.setTop { f with rest := rest, catching := caught }).request specifier, .value value) :=
    require_of_cached path found cached
  have step : run env s = deliver
      ((s.setTop { f with rest := rest, catching := caught }).request specifier) (.ok value) := by
    rw [run_of_stmt there quiet statements]
    exact requireImpl_of_value hit
  rw [step, deliver_ok top]
  exact ⟨rfl, rfl⟩

end ProtoJS.Modules.CommonJSLoader
