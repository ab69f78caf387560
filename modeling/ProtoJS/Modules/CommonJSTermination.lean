import ProtoJS.Modules.CommonJSCache

/-! # Every require ends

Inside of an evaluation only paths that some body requires can be under evaluation, each at most
once, and all of them are resolved from the same path. So the evaluations nest no deeper than
there are such paths. Counting the statements still to be carried out, each level in its own
power of a base that no body reaches, gives a weight that every step decreases.
-/

namespace ProtoJS.Modules.CommonJSLoader

open ModuleResolver

variable {env : Environment} {globalFilename : Option String} {s t : State} {f g : Frame}
  {outer : List Frame} {sources : List String} {base depth : ℕ}

section Bounds

/-- The statements of a source. -/
def bodyOf (env : Environment) (source : String) : List Stmt :=
  match env.evaluate source with
  | .ok body => body
  | .error _ => []

def Stmt.specifier : Stmt → Option String
  | .require argument _ => argument
  | _ => none

/-- The paths that the bodies of the sources require. -/
def requiredPaths (env : Environment) (sources : List String) (fromPath : String) : List String :=
  (sources.flatMap fun source => (bodyOf env source).filterMap Stmt.specifier).map
    fun specifier => (resolve env.fileSystem specifier fromPath).filePath

/-- Every evaluation has part of some source before it, and all but the outermost are of required
paths. -/
structure Bounded (env : Environment) (sources : List String) (fromPath : String)
    (frames : List Frame) : Prop where
  bodies : ∀ f ∈ frames, ∃ source ∈ sources, f.rest <:+ bodyOf env source
  nested : ∀ key ∈ (frames.map Frame.cacheKey).dropLast, key ∈ requiredPaths env sources fromPath

variable {fromPath : String}

private theorem Bounded.nil : Bounded env sources fromPath [] :=
  ⟨fun _ member => (List.not_mem_nil member).elim, fun _ member => (List.not_mem_nil member).elim⟩

private theorem Bounded.of_shapes {frames others : List Frame}
    (bounded : Bounded env sources fromPath frames)
    (same : others.map Frame.shape = frames.map Frame.shape) :
    Bounded env sources fromPath others := by
  refine ⟨?_, ?_⟩
  · intro f member
    have there := List.mem_map_of_mem (f := Frame.shape) member
    rw [same] at there
    obtain ⟨g, member', shape⟩ := List.mem_map.mp there
    obtain ⟨source, known, suffix⟩ := bounded.bodies g member'
    have rest : g.rest = f.rest := congrArg (fun shape => shape.2.2.2.1) shape
    exact ⟨source, known, rest ▸ suffix⟩
  · have keys := congrArg (List.map Prod.fst) same
    rw [List.map_map, List.map_map] at keys
    rw [show others.map Frame.cacheKey = frames.map Frame.cacheKey from keys]
    exact bounded.nested

private theorem Bounded.tail (bounded : Bounded env sources fromPath (f :: outer)) :
    Bounded env sources fromPath outer := by
  refine ⟨fun g member => bounded.bodies g (List.mem_cons_of_mem _ member), ?_⟩
  intro key member
  cases outer with
  | nil => cases member
  | cons g rest => exact bounded.nested key (List.mem_cons_of_mem _ member)

private theorem Bounded.top {stmt : Stmt} (bounded : Bounded env sources fromPath (f :: outer))
    (statements : f.rest = stmt :: g.rest) (key : g.cacheKey = f.cacheKey) :
    Bounded env sources fromPath (g :: outer) := by
  refine ⟨?_, ?_⟩
  · intro h member
    rcases List.mem_cons.mp member with rfl | member
    · obtain ⟨source, known, suffix⟩ := bounded.bodies f List.mem_cons_self
      rw [statements] at suffix
      exact ⟨source, known, (List.suffix_cons _ _).trans suffix⟩
    · exact bounded.bodies h (List.mem_cons_of_mem _ member)
  · rw [List.map_cons, key, ← List.map_cons]
    exact bounded.nested

private theorem Bounded.push {specifier : String} {caught : Bool} {body : List Stmt}
    {source : String} (bounded : Bounded env sources fromPath (f :: outer))
    (statements : f.rest = .require (some specifier) caught :: g.rest)
    (key : g.cacheKey = f.cacheKey) (known : source ∈ sources)
    (evaluated : env.evaluate source = .ok body) :
    Bounded env sources fromPath
      (.begin s (resolve env.fileSystem specifier fromPath).filePath body :: g :: outer) := by
  have below := bounded.top statements key
  refine ⟨?_, ?_⟩
  · intro h member
    rcases List.mem_cons.mp member with rfl | member
    · refine ⟨source, known, ?_⟩
      rw [bodyOf, evaluated]
      exact List.suffix_refl body
    · exact below.bodies h member
  · intro path member
    rw [List.map_cons, List.map_cons, List.dropLast_cons_cons] at member
    rcases List.mem_cons.mp member with rfl | member
    · obtain ⟨caller, known', suffix⟩ := bounded.bodies f List.mem_cons_self
      rw [statements] at suffix
      refine List.mem_map_of_mem (List.mem_flatMap.mpr ⟨caller, known', ?_⟩)
      exact List.mem_filterMap.mpr ⟨_, suffix.subset List.mem_cons_self, rfl⟩
    · exact below.nested path member

/-- All sources that can be read are among finitely many. -/
def Finitely (env : Environment) (sources : List String) : Prop :=
  ∀ path source, env.fileSystem.readFile path = some source → source ∈ sources

theorem bounded (finite : Finitely env sources)
    (reachable : (loader env globalFilename).Reachable s) :
    Bounded env sources (globalFilename.getD ".") s.frames := by
  refine reachable.invariant (P := fun s => Bounded env sources (globalFilename.getD ".") s.frames)
    .nil ?_
  intro s a reached enabled holds
  have from_ : s.fromPath = globalFilename.getD "." := by
    rw [State.fromPath, globalFilename_of_reachable reached]
  cases a with
  | require argument =>
    have idle : s.frames = [] := enabled
    rcases requireImpl_frames env s argument with same | begun
    · exact holds.of_shapes same
    · obtain ⟨specifier, source, body, _, opened, evaluated, frames⟩ := begun
      change Bounded env sources _ (requireImpl env s argument).frames
      rw [frames, idle]
      refine ⟨?_, fun _ member => (List.not_mem_nil member).elim⟩
      intro h member
      rw [List.mem_singleton.mp member]
      refine ⟨source, finite _ source opened, ?_⟩
      rw [bodyOf, evaluated]
      exact List.suffix_refl body
  | run =>
    cases there : s.frames with
    | nil => exact absurd there enabled
    | cons f outer =>
      rw [there] at holds
      rcases run_frames env there with ended | ⟨stmt, g, statements, key, same | begun⟩
      · exact holds.tail.of_shapes ended
      · exact (holds.top statements key).of_shapes same
      · obtain ⟨specifier, caught, source, body, rfl, opened, evaluated, frames⟩ := begun
        change Bounded env sources _ (run env s).frames
        rw [frames, from_]
        exact holds.push statements key (finite _ source opened) evaluated

/-- Evaluations nest no deeper than there are required paths. -/
theorem length_frames_le (finite : Finitely env sources)
    (reachable : (loader env globalFilename).Reachable s) :
    s.frames.length ≤ (requiredPaths env sources (globalFilename.getD ".")).length + 1 := by
  have distinct : s.active.dropLast.Nodup :=
    (caching reachable).nodup.sublist (List.dropLast_sublist _)
  have few := (distinct.subperm (bounded finite reachable).nested).length_le
  rw [List.length_dropLast, State.active, List.length_map] at few
  omega

end Bounds

section Weight

/-- The statements still to be carried out, the outermost evaluation counting most. -/
def weight (base depth : ℕ) : List Frame → ℕ
  | [] => 0
  | f :: outer => (f.rest.length + 1) * base ^ (depth - outer.length) + weight base depth outer

private theorem weight_of_shapes {frames others : List Frame}
    (same : others.map Frame.shape = frames.map Frame.shape) :
    weight base depth others = weight base depth frames := by
  induction frames generalizing others with
  | nil =>
    rw [List.map_eq_nil_iff.mp same]
  | cons f outer ih =>
    cases others with
    | nil => cases same
    | cons g rest =>
      rw [List.map_cons, List.map_cons, List.cons.injEq] at same
      have statements : g.rest = f.rest := congrArg (fun shape => shape.2.2.2.1) same.1
      have lengths : rest.length = outer.length := by
        simpa only [List.length_map] using congrArg List.length same.2
      rw [weight, weight, statements, lengths, ih same.2]

/-- Carrying out a statement outweighs the whole body it may begin. -/
private theorem weight_push {body : List Stmt} {stmt : Stmt} {path : String}
    (statements : f.rest = stmt :: g.rest) (short : body.length + 1 < base)
    (shallow : outer.length + 2 ≤ depth) :
    weight base depth (.begin s path body :: g :: outer) < weight base depth (f :: outer) := by
  obtain ⟨e, level⟩ : ∃ e, depth - outer.length = e + 1 := ⟨depth - outer.length - 1, by omega⟩
  have below : depth - (g :: outer).length = e := by
    rw [List.length_cons]
    omega
  have positive : 0 < base ^ e := Nat.pow_pos (by omega)
  have less : (body.length + 1) * base ^ e < base ^ (e + 1) := by
    rw [Nat.pow_succ, Nat.mul_comm (base ^ e)]
    exact Nat.mul_lt_mul_of_pos_right short positive
  have more : (g.rest.length + 1 + 1) * base ^ (e + 1) =
      (g.rest.length + 1) * base ^ (e + 1) + base ^ (e + 1) := Nat.succ_mul _ _
  have begun : (Frame.begin s path body).rest = body := rfl
  rw [weight, weight, weight, below, level, statements, List.length_cons, begun, more]
  omega

theorem weight_run (there : s.frames = f :: outer) (finite : Finitely env sources)
    (short : ∀ source ∈ sources, (bodyOf env source).length + 1 < base)
    (shallow : (run env s).frames.length ≤ depth) (positive : 0 < base) :
    weight base depth (run env s).frames < weight base depth s.frames := by
  rw [there]
  have level : 0 < base ^ (depth - outer.length) := Nat.pow_pos positive
  rcases run_frames env there with ended | ⟨stmt, g, statements, key, same | begun⟩
  · rw [weight_of_shapes ended, weight]
    have : 0 < (f.rest.length + 1) * base ^ (depth - outer.length) := Nat.mul_pos (by omega) level
    omega
  · rw [weight_of_shapes same, weight, weight, statements, List.length_cons]
    have : (g.rest.length + 1) * base ^ (depth - outer.length) <
        (g.rest.length + 1 + 1) * base ^ (depth - outer.length) :=
      Nat.mul_lt_mul_of_pos_right (by omega) level
    omega
  · obtain ⟨specifier, caught, source, body, rfl, opened, evaluated, frames⟩ := begun
    rw [frames] at shallow ⊢
    have small := short source (finite _ source opened)
    rw [bodyOf, evaluated] at small
    exact weight_push statements small shallow

end Weight

private theorem exists_base (env : Environment) (sources : List String) :
    ∃ base, ∀ source ∈ sources, (bodyOf env source).length + 1 < base := by
  induction sources with
  | nil => exact ⟨0, nofun⟩
  | cons source rest ih =>
    obtain ⟨base, short⟩ := ih
    refine ⟨max base ((bodyOf env source).length + 2), fun other member => ?_⟩
    rcases List.mem_cons.mp member with rfl | member
    · omega
    · have := short other member
      omega

/-- From every reachable state the loader runs until no evaluation is active. -/
theorem terminates (finite : Finitely env sources)
    (reachable : (loader env globalFilename).Reachable s) :
    ∃ n t, (loader env globalFilename).Run s (List.replicate n .run) t ∧ t.frames = [] := by
  obtain ⟨base, short⟩ := exists_base env sources
  generalize measured : weight (base + 1)
    ((requiredPaths env sources (globalFilename.getD ".")).length + 1) s.frames = w
  induction w using Nat.strongRecOn generalizing s with
  | _ w ih =>
    cases there : s.frames with
    | nil => exact ⟨0, s, .nil s, there⟩
    | cons f outer =>
      have enabled : (loader env globalFilename).Enabled s .run := by
        intro idle
        rw [there] at idle
        cases idle
      have later := reachable.next enabled
      have less := weight_run there finite
        (fun source known => Nat.lt_succ_of_lt (short source known))
        (length_frames_le finite later) (Nat.succ_pos base)
      obtain ⟨n, t, run, idle⟩ := ih _ (measured ▸ less) later rfl
      exact ⟨n + 1, t, .cons enabled run, idle⟩

/-- The cache over whole runs. At most one evaluation of a path is active; a nested require of an
active path is answered from the cache; every require ends; and when none is active, a path is
cached exactly when its latest evaluation completed. -/
theorem cache_invariant (finite : Finitely env sources)
    (reachable : (loader env globalFilename).Reachable s) :
    s.active.Nodup ∧
    (∀ f outer specifier caught rest, s.frames = f :: outer → f.thrown = none →
      f.rest = .require (some specifier) caught :: rest → isBareSpecifier specifier = false →
      (resolve env.fileSystem specifier s.fromPath).filePath ∈ s.active →
      ∃ value, s.moduleCache (resolve env.fileSystem specifier s.fromPath).filePath = some value ∧
        (next env s .run).frames =
          { f with rest := rest, catching := caught, results := f.results ++ [value] } :: outer ∧
        (next env s .run).ended = s.ended) ∧
    (∃ n t, (loader env globalFilename).Run s (List.replicate n .run) t ∧ t.frames = []) ∧
    (s.frames = [] → ∀ key, s.JavaScriptPath key →
      ((s.moduleCache key).isSome ↔ s.Completed key)) := by
  refine ⟨(caching reachable).nodup, ?_, terminates finite reachable, ?_⟩
  · intro f outer specifier caught rest there quiet statements path active
    exact answered_from_cache reachable there quiet statements path active
  · intro idle key path
    refine (caching reachable).settled key ?_ path
    rw [State.active, idle]
    exact List.not_mem_nil

section Cycle

/-- Two files that require each other; the second one then throws, which the first one catches. -/
def cycle : Environment :=
  .ofFiles (.ofFiles [("/app/main.js", ""), ("/app/a.js", "a"), ("/app/b.js", "b")] ["/app"])
    fun source =>
      if source = "" then .ok []
      else if source = "a" then .ok [.require (some "./b.js") true]
      else .ok [.require (some "./a.js") false, .throw "b"]

theorem finitely_ofFiles (files : List (String × String)) (directories : List String)
    (evaluate : String → Except String (List Stmt)) :
    Finitely (.ofFiles (.ofFiles files directories) evaluate) (files.map Prod.snd) := by
  intro path source opened
  obtain ⟨before, after, same, _⟩ := List.lookup_eq_some_iff.mp opened
  rw [same]
  simp

/-- The main script requires the first file, which stays cached; the second one does not. -/
theorem cache_invariant_cycle :
    ∃ s, (loader cycle (some "/app/main.js")).Reachable s ∧ s.frames = [] ∧
      ((s.moduleCache "/app/a.js").isSome ↔ s.Completed "/app/a.js") ∧
      ((s.moduleCache "/app/b.js").isSome ↔ s.Completed "/app/b.js") ∧
      s.Completed "/app/a.js" ∧ ¬s.Completed "/app/b.js" := by
  obtain ⟨s, run, idle, paths, ended⟩ :=
    (loader cycle (some "/app/main.js")).exists_run_of_replay
      (loader cycle (some "/app/main.js")).initial
      [.require (some "./a.js"), .run, .run, .run, .run, .run]
      (fun s => s.frames = [] ∧ (∀ r ∈ s.requests, isBareSpecifier r.specifier = false) ∧
        s.ended = [("/app/a.js", true), ("/app/b.js", false)]) (by decide)
  have path (key : String) (typed : typeOfPath key ≠ .native) : s.JavaScriptPath key :=
    ⟨typed, fun r member bare => by rw [paths r member] at bare; cases bare⟩
  have settled := (cache_invariant (finitely_ofFiles _ _ _) ⟨_, run⟩).2.2.2 idle
  refine ⟨s, ⟨_, run⟩, idle, settled _ (path _ (by decide)), settled _ (path _ (by decide)), ?_, ?_⟩
  · rw [State.Completed, ended]
    decide
  · rw [State.Completed, ended]
    decide

end Cycle

end ProtoJS.Modules.CommonJSLoader
