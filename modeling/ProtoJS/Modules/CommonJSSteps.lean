import ProtoJS.Modules.CommonJSLoader

/-! # What one step of the loader can change

`require` answers from the cache, from outside of the loader, by an exception, or by a source to
evaluate; nothing else happens to the state in between but allocations. Handing an outcome over
changes nothing of the active evaluations but what their bodies have received.
-/

namespace ProtoJS.Modules.CommonJSLoader

open ModuleResolver

variable {env : Environment} {s t : State} {f g : Frame} {outer : List Frame}
  {specifier fromPath key : String}

section Fields

variable {site : Site} {properties : List (String × Value)} {entry : Option Value}

@[simp] theorem createObject_frames : (createObject s site properties).frames = s.frames := rfl

theorem createModuleObject_eq (s : State) (site : Site) (key : String) : ∃ heap,
    createModuleObject s site key = { s with heap := heap, allocated := s.allocated + 1 } :=
  ⟨_, rfl⟩

/-- Both module objects are new, and the first one is cached. -/
theorem createModuleObjects_eq (s : State) (key : String) : ∃ heap,
    createModuleObjects s key =
      { s.cache key (some (.object ⟨.require, s.allocated, .module⟩)) with
        heap := heap
        allocated := s.allocated + 1 + 1 } := by
  obtain ⟨_, first⟩ := createModuleObject_eq s .require key
  rw [createModuleObjects, first]
  exact ⟨_, rfl⟩

@[simp] theorem cache_self : (s.cache key entry).moduleCache key = entry := Function.update_self ..

theorem cache_of_ne {other : String} (ne : other ≠ key) :
    (s.cache key entry).moduleCache other = s.moduleCache other := Function.update_of_ne ne ..

@[simp] theorem setTop_frames : (s.setTop f).frames = f :: s.frames.tail := rfl

end Fields

/-- What an evaluation is, whatever its body has received or thrown. -/
def Frame.shape (f : Frame) : String × ℕ × ℕ × List Stmt × Origin :=
  (f.cacheKey, f.record, f.wrapper, f.rest, f.origin)

section Deliver

variable {outcome : Except String Value}

private theorem deliver_eq (s : State) (outcome : Except String Value) :
    deliver s outcome = { s with answers := (deliver s outcome).answers } ∨
    ∃ f outer g, s.frames = f :: outer ∧ g.shape = f.shape ∧
      deliver s outcome = { s with frames := g :: outer } := by
  cases there : s.frames with
  | nil => exact .inl (by simp [deliver, there])
  | cons f outer =>
    refine .inr ⟨f, outer, ?_⟩
    cases outcome with
    | ok value =>
      exact ⟨{ f with results := f.results ++ [value] }, rfl, rfl, by
        simp [deliver, there, State.setTop]⟩
    | error text =>
      cases caught : f.catching with
      | true =>
        exact ⟨{ f with results := f.results ++ [.undefined] }, rfl, rfl, by
          simp [deliver, there, caught, State.setTop]⟩
      | false =>
        exact ⟨{ f with thrown := some text }, rfl, rfl, by
          simp [deliver, there, caught, State.setTop]⟩

@[simp] theorem deliver_heap : (deliver s outcome).heap = s.heap := by
  rcases deliver_eq s outcome with same | ⟨_, _, _, _, _, same⟩ <;> rw [same]

@[simp] theorem deliver_allocated : (deliver s outcome).allocated = s.allocated := by
  rcases deliver_eq s outcome with same | ⟨_, _, _, _, _, same⟩ <;> rw [same]

@[simp] theorem deliver_moduleCache : (deliver s outcome).moduleCache = s.moduleCache := by
  rcases deliver_eq s outcome with same | ⟨_, _, _, _, _, same⟩ <;> rw [same]

@[simp] theorem deliver_ended : (deliver s outcome).ended = s.ended := by
  rcases deliver_eq s outcome with same | ⟨_, _, _, _, _, same⟩ <;> rw [same]

@[simp] theorem deliver_requests : (deliver s outcome).requests = s.requests := by
  rcases deliver_eq s outcome with same | ⟨_, _, _, _, _, same⟩ <;> rw [same]

@[simp] theorem deliver_globalFilename :
    (deliver s outcome).globalFilename = s.globalFilename := by
  rcases deliver_eq s outcome with same | ⟨_, _, _, _, _, same⟩ <;> rw [same]

/-- The evaluations stay what they are. -/
@[simp] theorem deliver_shapes :
    (deliver s outcome).frames.map Frame.shape = s.frames.map Frame.shape := by
  rcases deliver_eq s outcome with same | ⟨f, outer, g, there, shape, same⟩
  · rw [same]
  · rw [same, there, List.map_cons, List.map_cons, shape]

/-- A value reaches the innermost body. -/
theorem deliver_ok {value : Value} (there : s.frames = f :: outer) :
    deliver s (.ok value) =
      { s with frames := { f with results := f.results ++ [value] } :: outer } := by
  simp [deliver, there, State.setTop]

end Deliver

/-- How `require` can answer. -/
inductive Requires (env : Environment) (s : State) (specifier fromPath : String) :
    State × Answer → Prop
  | hit (key : String) (value : Value) : s.moduleCache key = some value →
      Requires env s specifier fromPath (s, .value value)
  /-- The object made for the built-in `buffer` is not needed. -/
  | hitBuffer (key : String) (value : Value) (n : ℕ) : s.moduleCache key = some value →
      Requires env s specifier fromPath
        (createObject s .builtin [("Buffer", .foreign n)], .value value)
  | outside (key : String) (n : ℕ) : s.moduleCache key = none → isBareSpecifier specifier = true →
      key = "umd:" ++ specifier ∨ key = "builtin:" ++ specifier →
      Requires env s specifier fromPath (s.cache key (some (.foreign n)), .value (.foreign n))
  | buffer (key : String) (n : ℕ) : s.moduleCache key = none → isBareSpecifier specifier = true →
      key = "builtin:" ++ specifier →
      Requires env s specifier fromPath
        ((createObject s .builtin [("Buffer", .foreign n)]).cache key
          (some (.object ⟨.builtin, s.allocated, .plain⟩)),
          .value (.object ⟨.builtin, s.allocated, .plain⟩))
  | thrown (text : String) : Requires env s specifier fromPath (s, .thrown text)
  | nativeThrown (key text : String) :
      Requires env s specifier fromPath (createModuleObject s .native key, .thrown text)
  | native (key : String) (n : ℕ) : s.moduleCache key = none → typeOfPath key = .native →
      Requires env s specifier fromPath
        ((createModuleObject s .native key).cache key (some (.foreign n)), .value (.foreign n))
  | evaluate (source : String) : (resolve env.fileSystem specifier fromPath).filePath ≠ "" →
      s.moduleCache (resolve env.fileSystem specifier fromPath).filePath = none →
      env.fileSystem.readFile (resolve env.fileSystem specifier fromPath).filePath = some source →
      Requires env s specifier fromPath
        (s, .evaluate (resolve env.fileSystem specifier fromPath).filePath source)

private theorem requires_file :
    Requires env s specifier fromPath (requireFile env s specifier fromPath) := by
  unfold requireFile
  simp only
  split
  · exact .thrown _
  · rename_i found
    split
    · rename_i value cached
      exact .hit _ _ cached
    · rename_i absent
      split
      · rename_i isNative
        unfold requireNative
        split
        · exact .thrown _
        · split
          · exact .thrown _
          · simp only
            split
            · exact .nativeThrown _ _
            · exact .native _ _ absent (typeOfPath_of_native isNative)
      · split
        · exact .thrown _
        · rename_i source opened
          exact .evaluate source found absent opened

private theorem requires_builtin (bare : isBareSpecifier specifier = true) :
    Requires env s specifier fromPath (requireBuiltin env s specifier fromPath) := by
  unfold requireBuiltin builtinExports
  by_cases buffer : specifier = "buffer"
  · rw [if_pos buffer]
    cases env.globalProperty "Buffer" with
    | none => exact requires_file
    | some n =>
      simp only [Option.map_some]
      cases cached : s.moduleCache ("builtin:" ++ specifier) with
      | none => exact .buffer _ n cached bare rfl
      | some value => exact .hitBuffer _ value n cached
  · rw [if_neg buffer]
    cases env.globalProperty specifier with
    | none => exact requires_file
    | some n =>
      simp only [Option.map_some]
      cases cached : s.moduleCache ("builtin:" ++ specifier) with
      | none => exact .outside _ n cached bare (.inr rfl)
      | some value => exact .hit _ value cached

theorem requires (env : Environment) (s : State) (specifier fromPath : String) :
    Requires env s specifier fromPath (require env s specifier fromPath) := by
  unfold require
  split
  · exact requires_file
  · rename_i bare
    rw [not_not] at bare
    split
    · cases cached : s.moduleCache ("umd:" ++ specifier) with
      | some value => exact .hit _ value cached
      | none =>
        simp only
        split
        · exact .outside _ _ cached bare (.inl rfl)
        · exact requires_builtin bare
    · exact requires_builtin bare

/-- A path specifier whose path is cached is answered from the cache. -/
theorem require_of_cached {value : Value} (path : isBareSpecifier specifier = false)
    (found : (resolve env.fileSystem specifier fromPath).filePath ≠ "")
    (cached : s.moduleCache (resolve env.fileSystem specifier fromPath).filePath = some value) :
    require env s specifier fromPath = (s, .value value) := by
  simp [require, path, requireFile, found, cached]

section Run

theorem run_of_thrown {text : String} (there : s.frames = f :: outer) (thrown : f.thrown = some text) :
    run env s = fail s f text := by
  simp [run, there, thrown]

theorem run_of_finished (there : s.frames = f :: outer) (quiet : f.thrown = none)
    (finished : f.rest = []) : run env s = complete s f := by
  simp [run, there, quiet, finished]

theorem run_of_stmt {stmt : Stmt} {rest : List Stmt} (there : s.frames = f :: outer)
    (quiet : f.thrown = none) (statements : f.rest = stmt :: rest) :
    run env s = execute env s { f with rest := rest } stmt := by
  simp [run, there, quiet, statements]

/-- What a step of the evaluations can be. -/
inductive Runs (env : Environment) (s : State) : State → Prop
  | idle : s.frames = [] → Runs env s s
  | failed (f : Frame) (outer : List Frame) (text : String) : s.frames = f :: outer →
      f.thrown = some text → Runs env s (fail s f text)
  | completed (f : Frame) (outer : List Frame) : s.frames = f :: outer → f.thrown = none →
      f.rest = [] → Runs env s (complete s f)
  | executed (f : Frame) (outer : List Frame) (stmt : Stmt) (rest : List Stmt) :
      s.frames = f :: outer → f.thrown = none → f.rest = stmt :: rest →
      Runs env s (execute env s { f with rest := rest } stmt)

theorem runs (env : Environment) (s : State) : Runs env s (run env s) := by
  cases there : s.frames with
  | nil =>
    have same : run env s = s := by simp [run, there]
    exact same.symm ▸ .idle there
  | cons f outer =>
    cases thrown : f.thrown with
    | some text =>
      rw [run_of_thrown there thrown]
      exact .failed f outer text there thrown
    | none =>
      cases statements : f.rest with
      | nil =>
        rw [run_of_finished there thrown statements]
        exact .completed f outer there thrown statements
      | cons stmt rest =>
        rw [run_of_stmt there thrown statements]
        exact .executed f outer stmt rest there thrown statements

/-- Evaluating an expression changes nothing, or makes an object. -/
theorem evalExpr_state (env : Environment) (s : State) (f : Frame) (e : Expr) :
    (evalExpr env s f e).1 = s ∨ (evalExpr env s f e).1 = createObject s .body [] := by
  cases e with
  | emptyObject => exact .inr rfl
  | _ => exact .inl rfl

theorem evalExpr_frames (env : Environment) (s : State) (f : Frame) (e : Expr) :
    (evalExpr env s f e).1.frames = s.frames := by
  rcases evalExpr_state env s f e with same | same <;> rw [same]
  exact createObject_frames

/-- The frame of a new evaluation. -/
def Frame.begin (s : State) (cacheKey : String) (body : List Stmt) : Frame :=
  { cacheKey := cacheKey, record := s.allocated, wrapper := s.allocated + 1, rest := body }

/-- An answer is handed over. -/
theorem requireImpl_of_value {value : Value}
    (answered : require env (s.request specifier) specifier s.fromPath = (t, .value value)) :
    requireImpl env s (some specifier) = deliver t (.ok value) := by
  simp only [requireImpl, answered]

/-- A require leaves the evaluations as they are, or makes the objects of a new one. -/
theorem requireImpl_cases (env : Environment) (s : State) (argument : Option String) :
    (requireImpl env s argument).frames.map Frame.shape = s.frames.map Frame.shape ∨
      ∃ specifier source body, argument = some specifier ∧
        env.fileSystem.readFile (resolve env.fileSystem specifier s.fromPath).filePath =
          some source ∧ env.evaluate source = .ok body ∧
        requireImpl env s argument =
          { createModuleObjects (s.request specifier)
              (resolve env.fileSystem specifier s.fromPath).filePath with
            frames := .begin s (resolve env.fileSystem specifier s.fromPath).filePath body ::
              s.frames } := by
  cases argument with
  | none => exact .inl deliver_shapes
  | some specifier =>
    have answered := requires env (s.request specifier) specifier s.fromPath
    unfold requireImpl
    simp only
    generalize require env (s.request specifier) specifier s.fromPath = answer at answered
    cases answered with
    | evaluate source _ _ opened =>
      simp only [wrapModule]
      cases evaluated : env.evaluate source with
      | error text =>
        left
        obtain ⟨heap, created⟩ := createModuleObjects_eq (s.request specifier)
          (resolve env.fileSystem specifier s.fromPath).filePath
        simp only [created, deliver_shapes]
        rfl
      | ok body => exact .inr ⟨specifier, source, body, rfl, opened, evaluated, rfl⟩
    | _ => exact .inl deliver_shapes

/-- A require leaves the evaluations as they are, or begins the one of a file. -/
theorem requireImpl_frames (env : Environment) (s : State) (argument : Option String) :
    (requireImpl env s argument).frames.map Frame.shape = s.frames.map Frame.shape ∨
      ∃ specifier source body, argument = some specifier ∧
        env.fileSystem.readFile (resolve env.fileSystem specifier s.fromPath).filePath =
          some source ∧ env.evaluate source = .ok body ∧
        (requireImpl env s argument).frames =
          .begin s (resolve env.fileSystem specifier s.fromPath).filePath body :: s.frames := by
  rcases requireImpl_cases env s argument with kept | begun
  · exact .inl kept
  · obtain ⟨specifier, source, body, called, opened, evaluated, same⟩ := begun
    exact .inr ⟨specifier, source, body, called, opened, evaluated, by rw [same]⟩

/-- A statement writes to the heap and moves its own frame on, or calls `requireImpl`; `f` is the
frame after it. -/
theorem execute_cases (env : Environment) (s : State) (f : Frame) (stmt : Stmt) :
    (∃ g heap allocated, g.rest = f.rest ∧ g.cacheKey = f.cacheKey ∧ g.record = f.record ∧
      execute env s f stmt =
        { s with frames := g :: s.frames.tail, heap := heap, allocated := allocated }) ∨
      ∃ argument caught, stmt = .require argument caught ∧
        execute env s f stmt = requireImpl env (s.setTop { f with catching := caught }) argument := by
  have moved (e : Expr) (g : Frame) : ∃ heap allocated, (evalExpr env s f e).1.setTop g =
      { s with frames := g :: s.frames.tail, heap := heap, allocated := allocated } := by
    rcases evalExpr_state env s f e with same | same <;> rw [same] <;> exact ⟨_, _, rfl⟩
  cases stmt with
  | throw text => exact .inl ⟨{ f with thrown := some text }, _, _, rfl, rfl, rfl, rfl⟩
  | require argument caught => exact .inr ⟨argument, caught, rfl, rfl⟩
  | assignExports name e =>
    left
    simp only [execute]
    split <;> rename_i evaluated
    · obtain ⟨heap, allocated, same⟩ := moved e f
      rw [evaluated] at same
      rw [same]
      exact ⟨f, _, allocated, rfl, rfl, rfl, rfl⟩
    · obtain ⟨heap, allocated, same⟩ := moved e { f with thrown := some "cannot read property" }
      rw [evaluated] at same
      exact ⟨{ f with thrown := some "cannot read property" }, heap, allocated, rfl, rfl, rfl, same⟩
  | assignModule name e =>
    left
    simp only [execute]
    split <;> rename_i evaluated
    · obtain ⟨heap, allocated, same⟩ :=
        moved e (if name = "exports" then { f with origin := e.origin f } else f)
      rw [evaluated] at same
      rw [same]
      refine ⟨_, _, allocated, ?_, ?_, ?_, rfl⟩ <;> split <;> rfl
    · obtain ⟨heap, allocated, same⟩ := moved e { f with thrown := some "cannot read property" }
      rw [evaluated] at same
      exact ⟨{ f with thrown := some "cannot read property" }, heap, allocated, rfl, rfl, rfl, same⟩

/-- What one statement does to the active evaluations; `f` is the frame after it. -/
theorem execute_frames (f : Frame) (stmt : Stmt) (below : s.frames.tail = outer) :
    ∃ g, g.rest = f.rest ∧ g.cacheKey = f.cacheKey ∧
      ((execute env s f stmt).frames.map Frame.shape = (g :: outer).map Frame.shape ∨
        ∃ specifier caught source body, stmt = .require (some specifier) caught ∧
          env.fileSystem.readFile (resolve env.fileSystem specifier s.fromPath).filePath =
            some source ∧ env.evaluate source = .ok body ∧
          (execute env s f stmt).frames =
            .begin s (resolve env.fileSystem specifier s.fromPath).filePath body :: g :: outer) := by
  rcases execute_cases env s f stmt with
    ⟨g, heap, allocated, rest, key, _, same⟩ | ⟨argument, caught, rfl, same⟩
  · refine ⟨g, rest, key, .inl ?_⟩
    rw [same, below]
  · refine ⟨{ f with catching := caught }, rfl, rfl, ?_⟩
    have top : (s.setTop { f with catching := caught }).frames =
        { f with catching := caught } :: outer := by
      rw [setTop_frames, below]
    rw [same]
    rcases requireImpl_frames env (s.setTop { f with catching := caught }) argument with kept | begun
    · rw [top] at kept
      exact .inl kept
    · obtain ⟨specifier, source, body, rfl, opened, evaluated, frames⟩ := begun
      rw [top] at frames
      exact .inr ⟨specifier, caught, source, body, rfl, opened, evaluated, frames⟩

/-- What one step does to the active evaluations: the innermost one ends, or carries out a
statement, or carries out a require that begins another one. -/
theorem run_frames (env : Environment) (there : s.frames = f :: outer) :
    (run env s).frames.map Frame.shape = outer.map Frame.shape ∨
    ∃ stmt g, f.rest = stmt :: g.rest ∧ g.cacheKey = f.cacheKey ∧
      ((run env s).frames.map Frame.shape = (g :: outer).map Frame.shape ∨
        ∃ specifier caught source body, stmt = .require (some specifier) caught ∧
          env.fileSystem.readFile (resolve env.fileSystem specifier s.fromPath).filePath =
            some source ∧ env.evaluate source = .ok body ∧
          (run env s).frames =
            .begin s (resolve env.fileSystem specifier s.fromPath).filePath body :: g :: outer) := by
  have ran := runs env s
  generalize run env s = t at ran ⊢
  cases ran with
  | idle none => cases there.symm.trans none
  | failed f' outer' text there' thrown =>
    cases there.symm.trans there'
    left
    rw [fail, deliver_shapes, there]
    rfl
  | completed f' outer' there' quiet finished =>
    cases there.symm.trans there'
    left
    rw [complete, deliver_shapes, there]
    rfl
  | executed f' outer' stmt rest there' quiet statements =>
    cases there.symm.trans there'
    obtain ⟨g, remains, key, frames⟩ := execute_frames
      { f with rest := rest } stmt (show s.frames.tail = outer by rw [there]; rfl)
    exact .inr ⟨stmt, g, by rw [remains, statements], key, frames⟩

end Run

section GlobalFilename

private theorem wrapModule_globalFilename {source : String} :
    (wrapModule env s key source).globalFilename = s.globalFilename := by
  obtain ⟨heap, created⟩ := createModuleObjects_eq s key
  simp only [wrapModule, created]
  split
  · rw [deliver_globalFilename]
    rfl
  · rfl

private theorem requireImpl_globalFilename {argument : Option String} :
    (requireImpl env s argument).globalFilename = s.globalFilename := by
  cases argument with
  | none => exact deliver_globalFilename
  | some specifier =>
    have answered := requires env (s.request specifier) specifier s.fromPath
    unfold requireImpl
    simp only
    generalize require env (s.request specifier) specifier s.fromPath = answer at answered
    cases answered with
    | evaluate source _ _ _ => exact wrapModule_globalFilename
    | _ => exact deliver_globalFilename

/-- No step changes the global `__filename`. -/
theorem globalFilename_next {a : Action} : (next env s a).globalFilename = s.globalFilename := by
  cases a with
  | require argument => exact requireImpl_globalFilename
  | run =>
    have ran := runs env s
    rw [next]
    generalize run env s = t at ran ⊢
    cases ran with
    | idle => rfl
    | failed | completed => exact deliver_globalFilename
    | executed f outer stmt rest =>
      rcases execute_cases env s { f with rest := rest } stmt with
        ⟨g, heap, allocated, _, _, _, same⟩ | ⟨argument, caught, _, same⟩ <;> rw [same]
      exact requireImpl_globalFilename

theorem globalFilename_of_reachable {globalFilename : Option String}
    (reachable : (loader env globalFilename).Reachable s) : s.globalFilename = globalFilename :=
  reachable.invariant (P := fun s => s.globalFilename = globalFilename) rfl
    fun _ _ _ _ same => globalFilename_next.trans same

end GlobalFilename

end ProtoJS.Modules.CommonJSLoader
