import ProtoJS.Modules.CommonJSCache
import ProtoJS.Modules.CommonJSExports

/-! # What a cycle of requires observes

While an evaluation is active the cache holds the module object that `require` made for it, not
the exports of the one that the body fills. A nested require of the path gets that object, and the
require that began the evaluation returns the exports of it in the end.
-/

namespace ProtoJS.Modules.CommonJSLoader

open ModuleResolver

variable {env : Environment} {globalFilename : Option String} {s t : State} {f g : Frame}
  {outer : List Frame} {specifier key : String} {a : Address} {w : ℕ}

/-- The source of the file evaluates to the body. -/
def HasBody (env : Environment) (path : String) (body : List Stmt) : Prop :=
  ∃ source, env.fileSystem.readFile path = some source ∧ env.evaluate source = .ok body

/-- The object that `wrapModule` puts into the `module.exports` of a body. -/
def Frame.wrappedExports (f : Frame) : Address := ⟨.wrapModule, f.wrapper, .exports⟩

section Heap

theorem cache_heap {entry : Option Value} : (s.cache key entry).heap = s.heap := rfl

/-- A require touches no older object. -/
theorem requireImpl_heap {argument : Option String} (below : a.number < s.allocated) :
    (requireImpl env s argument).heap a = s.heap a := by
  cases argument with
  | none => rw [requireImpl, deliver_heap]
  | some specifier =>
    have answered := requires env (s.request specifier) specifier s.fromPath
    unfold requireImpl
    simp only
    generalize require env (s.request specifier) specifier s.fromPath = answer at answered
    cases answered with
    | hit | thrown | outside => exact congrFun deliver_heap a
    | hitBuffer | buffer =>
      simp only [deliver_heap, cache_heap]
      exact createObject_heap (s := s.request specifier) below
    | nativeThrown | native =>
      simp only [deliver_heap, cache_heap]
      exact createModuleObject_heap (s := s.request specifier) below
    | evaluate source =>
      have objects (key : String) :
          (createModuleObjects (s.request specifier) key).heap a = s.heap a := by
        rw [createModuleObjects, createModuleObject_heap, cache_heap]
        · exact createModuleObject_heap (s := s.request specifier) below
        · exact Nat.lt_succ_of_lt below
      unfold wrapModule
      simp only
      split
      · rw [deliver_heap, cache_heap]
        exact objects (resolve env.fileSystem specifier s.fromPath).filePath
      · exact objects (resolve env.fileSystem specifier s.fromPath).filePath

/-- The second module object has the exports that the body is handed. -/
theorem createModuleObjects_exports :
    (createModuleObjects s key).heap ⟨.wrapModule, s.allocated + 1, .module⟩ "exports" =
      some (.object ⟨.wrapModule, s.allocated + 1, .exports⟩) := by
  rw [createModuleObjects]
  exact createModuleObject_exports (s := (createModuleObject s .require key).cache key _)

theorem evalExpr_heap (env : Environment) (f : Frame) (e : Expr) (below : a.number < s.allocated) :
    (evalExpr env s f e).1.heap a = s.heap a := by
  rcases evalExpr_state env s f e with same | same <;> rw [same]
  exact createObject_heap below

theorem write_heap {address : Address} {name other : String} {value : Value}
    (apart : a = address → other ≠ name) :
    (s.write address name value).heap a other = s.heap a other := by
  by_cases here : a = address
  · subst here
    simp [State.write, Function.update_of_ne (apart rfl)]
  · simp [State.write, Function.update_of_ne here]

/-- Only its own statement assigns the `module.exports` of a body. -/
theorem execute_exports {stmt : Stmt} (below : w < s.allocated) :
    (execute env s f stmt).heap ⟨.wrapModule, w, .module⟩ "exports" =
        s.heap ⟨.wrapModule, w, .module⟩ "exports" ∨
      w = f.wrapper ∧ ∃ e, stmt = .assignModule "exports" e := by
  cases stmt with
  | throw text => exact .inl rfl
  | require argument caught =>
    left
    exact congrFun (requireImpl_heap (s := s.setTop { f with catching := caught }) below) "exports"
  | assignExports name e =>
    left
    have evaluated := evalExpr_heap env f e (a := ⟨.wrapModule, w, .module⟩) below
    simp only [execute]
    split <;> rename_i same <;> rw [same] at evaluated
    · rw [← evaluated]
      refine write_heap fun here => ?_
      cases congrArg Address.part here
    · exact congrFun evaluated _
  | assignModule name e =>
    have evaluated := evalExpr_heap env f e (a := ⟨.wrapModule, w, .module⟩) below
    by_cases own : w = f.wrapper ∧ name = "exports"
    · exact .inr ⟨own.1, e, by rw [own.2]⟩
    · left
      simp only [execute]
      split <;> rename_i same <;> rw [same] at evaluated
      · rw [← evaluated]
        refine write_heap fun here named => ?_
        exact own ⟨congrArg Address.number here, named.symm⟩
      · exact congrFun evaluated _

end Heap

section Bodies

theorem Private.wrapper_lt (privacy : Private s) : ∀ f ∈ s.frames, f.wrapper < s.allocated :=
  fun _ member => (privacy.own _ (List.mem_map_of_mem member)).wrapper

/-- The module object of another evaluation is another one. -/
theorem Private.wrapper_ne (privacy : Private s) (there : s.frames = f :: outer)
    (member : g ∈ outer) : g.wrapper ≠ f.wrapper := by
  have distinct := privacy.wrappers
  rw [State.cores, there, List.map_map, List.map_cons, List.nodup_cons] at distinct
  intro same
  exact distinct.1 (List.mem_map.mpr ⟨g, member, same⟩)

/-- The path of an evaluation, the number of the module object its body has, and what is left of
the body. -/
def Frame.place (f : Frame) : String × ℕ × List Stmt := (f.cacheKey, f.wrapper, f.rest)

theorem places_of_shapes {frames : List Frame}
    (same : t.frames.map Frame.shape = frames.map Frame.shape) :
    t.frames.map Frame.place = frames.map Frame.place := by
  have parts := congrArg (List.map fun shape : String × ℕ × ℕ × List Stmt × Origin =>
    (shape.1, shape.2.2.1, shape.2.2.2.1)) same
  rwa [List.map_map, List.map_map] at parts

/-- What an evaluation has done of the body of its file. -/
def Traced (env : Environment) (s : State) (place : String × ℕ × List Stmt) : Prop :=
  ∃ done, HasBody env place.1 (done ++ place.2.2) ∧
    ((∀ e, .assignModule "exports" e ∉ done) →
      s.heap ⟨.wrapModule, place.2.1, .module⟩ "exports" =
        some (.object ⟨.wrapModule, place.2.1, .exports⟩))

theorem Traced.congr {place : String × ℕ × List Stmt} (traced : Traced env s place)
    (same : t.heap ⟨.wrapModule, place.2.1, .module⟩ "exports" =
      s.heap ⟨.wrapModule, place.2.1, .module⟩ "exports") : Traced env t place := by
  obtain ⟨done, body, unassigned⟩ := traced
  exact ⟨done, body, fun never => same.trans (unassigned never)⟩

/-- A statement is one of the body's, and assigns `module.exports` if it changes them. -/
theorem Traced.advance {path : String} {stmt : Stmt} {rest : List Stmt}
    (traced : Traced env s (path, w, stmt :: rest))
    (same : t.heap ⟨.wrapModule, w, .module⟩ "exports" =
        s.heap ⟨.wrapModule, w, .module⟩ "exports" ∨ ∃ e, stmt = .assignModule "exports" e) :
    Traced env t (path, w, rest) := by
  obtain ⟨done, body, unassigned⟩ := traced
  refine ⟨done ++ [stmt], by simpa using body, fun never => ?_⟩
  rcases same with same | ⟨e, rfl⟩
  · exact same.trans (unassigned fun e member => never e (List.mem_append_left _ member))
  · exact absurd List.mem_concat_self (never e)

/-- The new evaluation has done nothing of the body. -/
theorem traced_begin {body : List Stmt} (file : HasBody env key body)
    (exports : t.heap ⟨.wrapModule, s.allocated + 1, .module⟩ "exports" =
      some (.object ⟨.wrapModule, s.allocated + 1, .exports⟩)) :
    Traced env t (Frame.begin s key body).place :=
  ⟨[], file, fun _ => exports⟩

/-- Every active evaluation carries out the body of its file. -/
def AllTraced (env : Environment) (s : State) : Prop :=
  ∀ place ∈ s.frames.map Frame.place, Traced env s place

theorem AllTraced.requireImpl (all : AllTraced env s)
    (older : ∀ f ∈ s.frames, f.wrapper < s.allocated) (argument : Option String) :
    AllTraced env (CommonJSLoader.requireImpl env s argument) := by
  have kept (f : Frame) (member : f ∈ s.frames) :
      Traced env (CommonJSLoader.requireImpl env s argument) f.place := by
    exact (all _ (List.mem_map_of_mem member)).congr
      (congrFun (requireImpl_heap (older f member)) _)
  intro place member
  rcases requireImpl_cases env s argument with
    same | ⟨specifier, source, body, rfl, opened, evaluated, same⟩
  · rw [places_of_shapes same] at member
    obtain ⟨f, there, rfl⟩ := List.mem_map.mp member
    exact kept f there
  · rw [same] at member
    rcases List.mem_cons.mp member with rfl | member
    · refine traced_begin ⟨source, opened, evaluated⟩ ?_
      rw [same]
      dsimp only
      exact createModuleObjects_exports (s := s.request specifier)
    · obtain ⟨f, there, rfl⟩ := List.mem_map.mp member
      exact kept f there

/-- What hands an outcome over changes no evaluation. -/
theorem AllTraced.deliver (all : AllTraced env s) (outcome : Except String Value) :
    AllTraced env (CommonJSLoader.deliver s outcome) := by
  intro place member
  rw [places_of_shapes deliver_shapes] at member
  exact (all place member).congr (by rw [deliver_heap])

/-- The innermost evaluation ends: its module object is marked as loaded. -/
theorem AllTraced.finish (all : AllTraced env s) (there : s.frames = f :: outer)
    {entry : Option Value} {ended : List (String × Bool)} :
    AllTraced env { (s.write f.wrappedObj "loaded" (.boolean true)).cache f.cacheKey entry with
      frames := s.frames.tail
      ended := ended } := by
  intro place member
  rw [there] at member
  have before := all place (by rw [there]; exact List.mem_cons_of_mem _ member)
  exact before.congr (write_heap fun _ => by decide)

/-- A statement moves its own evaluation on. -/
theorem execute_places (env : Environment) (s : State) (f : Frame) (stmt : Stmt) :
    (∃ argument caught, stmt = .require argument caught) ∨
      (execute env s f stmt).frames.map Frame.place = (f :: s.frames.tail).map Frame.place := by
  have moved {next : State} {e : Expr} {value : Option Value}
      (same : evalExpr env s f e = (next, value)) (g : Frame) (place : g.place = f.place) :
      (next.setTop g).frames.map Frame.place = (f :: s.frames.tail).map Frame.place := by
    rw [setTop_frames, ← evalExpr_frames env s f e, same, List.map_cons, List.map_cons, place]
  cases stmt with
  | require argument caught => exact .inl ⟨argument, caught, rfl⟩
  | throw text => exact .inr rfl
  | assignExports name e =>
    right
    simp only [execute]
    split <;> rename_i same
    · exact moved same f rfl
    · exact moved same _ rfl
  | assignModule name e =>
    right
    simp only [execute]
    split <;> rename_i same
    · apply moved same _
      split <;> rfl
    · exact moved same _ rfl

theorem AllTraced.execute (all : AllTraced env s) (privacy : Private s)
    (there : s.frames = f :: outer) {stmt : Stmt} {rest : List Stmt}
    (statements : f.rest = stmt :: rest) :
    AllTraced env (CommonJSLoader.execute env s { f with rest := rest } stmt) := by
  have first : Traced env s (f.cacheKey, f.wrapper, stmt :: rest) := by
    rw [← statements]
    exact all f.place (by rw [there]; exact List.mem_cons_self)
  have others (g : Frame) (member : g ∈ outer) : Traced env s g.place :=
    all _ (List.mem_map_of_mem (there ▸ List.mem_cons_of_mem _ member))
  have older := privacy.wrapper_lt
  rw [there] at older
  rcases execute_places env s { f with rest := rest } stmt with ⟨argument, caught, rfl⟩ | same
  · rw [CommonJSLoader.execute]
    refine AllTraced.requireImpl ?_ ?_ argument
    · intro place member
      rw [setTop_frames, there] at member
      rcases List.mem_cons.mp member with rfl | member
      · exact first.advance (.inl rfl)
      · obtain ⟨g, inside, rfl⟩ := List.mem_map.mp member
        exact others g inside
    · intro g member
      rw [setTop_frames, there] at member
      rcases List.mem_cons.mp member with rfl | inside
      · exact older f List.mem_cons_self
      · exact older g (List.mem_cons_of_mem _ inside)
  · intro place member
    rw [same, there] at member
    rcases List.mem_cons.mp member with rfl | member
    · exact first.advance ((execute_exports (older f List.mem_cons_self)).imp_right And.right)
    · obtain ⟨g, inside, rfl⟩ := List.mem_map.mp member
      apply (others g inside).congr
      apply (execute_exports (older g (List.mem_cons_of_mem _ inside))).resolve_right
      exact fun own => privacy.wrapper_ne there inside own.1

theorem AllTraced.run (all : AllTraced env s) (privacy : Private s) :
    AllTraced env (CommonJSLoader.run env s) := by
  have ran := runs env s
  generalize CommonJSLoader.run env s = t at ran ⊢
  cases ran with
  | idle => exact all
  | failed f outer text there => exact (all.finish there).deliver _
  | completed f outer there => exact (all.finish there).deliver _
  | executed f outer stmt rest there _ statements => exact all.execute privacy there statements

/-- In every reached state each active evaluation has done part of the body of its file, and its
`module.exports` are what `wrapModule` put there until a statement of the body assigns them. -/
theorem traced_of_reachable (reachable : (loader env globalFilename).Reachable s) :
    AllTraced env s := by
  refine reachable.invariant (P := AllTraced env) (fun _ member => ?_) ?_
  · cases member
  · intro s a before _ all
    have privacy := privacy_of_reachable before
    cases a with
    | require argument => exact all.requireImpl privacy.wrapper_lt argument
    | run => exact all.run privacy

end Bodies

/-- No module of another kind answers to a bare specifier. -/
def FileBased (env : Environment) (s : State) (specifier : String) : Prop :=
  isBareSpecifier specifier = true →
    ((env.hasProtoSpace && env.hasProtoContext) = true →
      s.moduleCache ("umd:" ++ specifier) = none ∧ env.importModule specifier = none) ∧
    builtinExports env s specifier = none

/-- The innermost body is about to require the path of an active evaluation. -/
def Revisits (env : Environment) (s : State) (f : Frame) : Prop :=
  f ∈ s.frames ∧ ∃ g outer specifier caught rest, s.frames = g :: outer ∧ g.thrown = none ∧
    g.rest = .require (some specifier) caught :: rest ∧ FileBased env s specifier ∧
    (resolve env.fileSystem specifier s.fromPath).filePath = f.cacheKey

/-- The nested require returns the current exports of the active evaluation, and if the body of
that never assigns `module.exports`, its own require returns the same in the end. -/
def GivesExports (env : Environment) (globalFilename : Option String) (s : State) (f : Frame) :
    Prop :=
  ∃ value, (next env s .run).Received value ∧ s.heap f.wrappedObj "exports" = some value ∧
    ((∀ body, HasBody env f.cacheKey body → ∀ e, .assignModule "exports" e ∉ body) →
      ∀ later mid g outer, (loader env globalFilename).Run s later mid → mid.frames = g :: outer →
        g.record = f.record → g.thrown = none → g.rest = [] →
        (next env mid .run).Received value)

section Cycles

theorem require_of_fileBased {fromPath : String} (fileBased : FileBased env s specifier) :
    require env s specifier fromPath = requireFile env s specifier fromPath := by
  rw [require]
  cases bare : isBareSpecifier specifier with
  | false => rfl
  | true =>
    obtain ⟨umd, builtin⟩ := fileBased bare
    have answered : requireBuiltin env s specifier fromPath =
        requireFile env s specifier fromPath := by
      rw [requireBuiltin, builtin]
    cases space : env.hasProtoSpace && env.hasProtoContext with
    | false => simpa using answered
    | true => simpa [umd space] using answered

theorem FileBased.congr (fileBased : FileBased env s specifier)
    (cache : t.moduleCache = s.moduleCache) : FileBased env t specifier := by
  intro bare
  obtain ⟨umd, builtin⟩ := fileBased bare
  refine ⟨fun space => by rw [cache]; exact umd space, ?_⟩
  simp only [builtinExports] at builtin ⊢
  split at builtin <;> simp_all

theorem received_unique {v w : Value} (first : s.Received v) (second : s.Received w) : v = w := by
  rw [State.Received] at first second
  split at first <;> simp_all

/-- A nested require of an active path returns the module object that `require` made for it. -/
theorem received_of_revisits (reachable : (loader env globalFilename).Reachable s)
    (revisits : Revisits env s f) : (next env s .run).Received (.object f.moduleObj) := by
  obtain ⟨active, g, outer, specifier, caught, rest, there, quiet, statements, fileBased, path⟩ :=
    revisits
  obtain ⟨found, cached⟩ := (caching reachable).entries f.entry (List.mem_map_of_mem active)
  change f.cacheKey ≠ "" at found
  change s.moduleCache f.cacheKey = some (.object f.moduleObj) at cached
  let called := (s.setTop { g with rest := rest, catching := caught }).request specifier
  have hit : require env called specifier s.fromPath = (called, .value (.object f.moduleObj)) := by
    rw [require_of_fileBased (fileBased.congr (t := called) rfl), requireFile]
    simp [path, found, called, State.request, State.setTop, cached]
  have step : next env s .run = deliver called (.ok (.object f.moduleObj)) := by
    rw [next, run_of_stmt there quiet statements]
    exact requireImpl_of_value hit
  rw [step]
  exact received_deliver

/-- In a cycle the nested require returns the current exports of the active module exactly if the
body has put into its `module.exports` the very module object that the cache holds for it. -/
theorem gives_exports_iff (reachable : (loader env globalFilename).Reachable s)
    (revisits : Revisits env s f) : GivesExports env globalFilename s f ↔
      s.heap f.wrappedObj "exports" = some (.object f.moduleObj) := by
  have received := received_of_revisits reachable revisits
  constructor
  · rintro ⟨value, returned, current, _⟩
    rw [received_unique received returned]
    exact current
  · intro current
    refine ⟨_, received, current, fun never => ?_⟩
    -- the body must have assigned its `module.exports` already
    obtain ⟨done, file, unassigned⟩ :=
      traced_of_reachable reachable f.place (List.mem_map_of_mem revisits.1)
    have untouched := unassigned fun e member =>
      never _ file e (List.mem_append_left _ member)
    change s.heap f.wrappedObj "exports" = _ at untouched
    rw [current] at untouched
    cases untouched

/-- A module that makes its own module object its exports, and requires itself again. -/
def selfExporting : Environment := oneModule
  [.require (some "./a.js") false, .assignModule "exports" (.result 0),
    .require (some "./a.js") false]

/-- Its evaluation before the second require. -/
def selfExportingFrame : Frame :=
  { cacheKey := "/app/a.js", record := 0, wrapper := 1, rest := [.require (some "./a.js") false]
    results := [.object ⟨.require, 0, .module⟩] }

theorem gives_exports_iff_selfExporting : ∃ s,
    (loader selfExporting (some "/app/main.js")).Reachable s ∧
    Revisits selfExporting s selfExportingFrame ∧
    GivesExports selfExporting (some "/app/main.js") s selfExportingFrame := by
  obtain ⟨s, run, there, path, current⟩ :=
    (loader selfExporting (some "/app/main.js")).exists_run_of_replay
      (loader selfExporting (some "/app/main.js")).initial [.require (some "./a.js"), .run, .run]
      (fun s => s.frames = [selfExportingFrame] ∧
        (resolve selfExporting.fileSystem "./a.js" s.fromPath).filePath = "/app/a.js" ∧
        s.heap selfExportingFrame.wrappedObj "exports" =
          some (.object selfExportingFrame.moduleObj)) (by decide)
  have revisits : Revisits selfExporting s selfExportingFrame := by
    refine ⟨by rw [there]; exact List.mem_cons_self, selfExportingFrame, [], "./a.js", false, [],
      there, rfl, rfl, fun bare => ?_, path⟩
    exact absurd bare (by decide)
  exact ⟨s, ⟨_, run⟩, revisits, (gives_exports_iff ⟨_, run⟩ revisits).mpr current⟩

/-- Two modules that require each other; the first one has set a property by then. -/
def fillingCycle : Environment :=
  .ofFiles (.ofFiles [("/app/main.js", ""), ("/app/a.js", "a"), ("/app/b.js", "b")] ["/app"])
    fun source =>
      if source = "a" then .ok [.assignExports "x" (.literal 1), .require (some "./b.js") false]
      else .ok [.require (some "./a.js") false]

/-- The evaluation of the first module, in its require of the second one. -/
def fillingFrame : Frame := { cacheKey := "/app/a.js", record := 0, wrapper := 1, rest := [] }

/-- The nested require gets an object without the property, which is neither the one that the body
has filled nor the one that the outer require returns in the end. -/
theorem cycle_gets_module_object : ∃ s,
    (loader fillingCycle (some "/app/main.js")).Reachable s ∧
    Revisits fillingCycle s fillingFrame ∧
    s.heap fillingFrame.wrappedObj "exports" = some (.object fillingFrame.wrappedExports) ∧
    s.heap fillingFrame.wrappedExports "x" = some (.foreign 1) ∧
    (next fillingCycle s .run).Received (.object fillingFrame.moduleObj) ∧
    s.heap fillingFrame.moduleObj "x" = none ∧
    (∃ t, (loader fillingCycle (some "/app/main.js")).Run s [.run, .run, .run] t ∧
      t.Received (.object fillingFrame.exportsObj)) ∧
    ¬GivesExports fillingCycle (some "/app/main.js") s fillingFrame := by
  let nested : Frame :=
    { cacheKey := "/app/b.js", record := 2, wrapper := 3, rest := [.require (some "./a.js") false] }
  obtain ⟨s, run, there, path, current, filled, empty, ends⟩ :=
    (loader fillingCycle (some "/app/main.js")).exists_run_of_replay
      (loader fillingCycle (some "/app/main.js")).initial [.require (some "./a.js"), .run, .run]
      (fun s => s.frames = [nested, fillingFrame] ∧
        (resolve fillingCycle.fileSystem "./a.js" s.fromPath).filePath = "/app/a.js" ∧
        s.heap fillingFrame.wrappedObj "exports" = some (.object fillingFrame.wrappedExports) ∧
        s.heap fillingFrame.wrappedExports "x" = some (.foreign 1) ∧
        s.heap fillingFrame.moduleObj "x" = none ∧
        (((loader fillingCycle (some "/app/main.js")).replay s [.run, .run, .run]).any fun t =>
          decide (t.frames = [] ∧
            t.answers.getLast? = some (.ok (.object fillingFrame.exportsObj)))) = true)
      (by decide)
  have revisits : Revisits fillingCycle s fillingFrame := by
    refine ⟨by rw [there]; decide, nested, [fillingFrame], "./a.js", false, [], there, rfl, rfl,
      fun bare => ?_, path⟩
    exact absurd bare (by decide)
  have received := received_of_revisits ⟨_, run⟩ revisits
  obtain ⟨t, rest, idle, answered⟩ :=
    (loader fillingCycle (some "/app/main.js")).exists_run_of_replay s [.run, .run, .run] _ ends
  refine ⟨s, ⟨_, run⟩, revisits, current, filled, received, empty, ⟨t, rest, ?_⟩, ?_⟩
  · rw [State.Received, idle]
    exact answered
  · rintro ⟨value, returned, same, _⟩
    rw [received_unique returned received, current] at same
    cases same

end Cycles

end ProtoJS.Modules.CommonJSLoader
