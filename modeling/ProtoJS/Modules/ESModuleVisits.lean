import ProtoJS.Modules.ESModuleLoader
import ProtoJS.Machine.Memo

/-! # Loads as visits of a graph

The requests that can be loaded form a graph: a request for a readable ES module depends on the
imports of its source that lead to ES modules. `loadModule` visits this graph with a memory, which
is its cache. Namespace objects are numbered as the visits are completed, and each completed visit
is one evaluation.
-/

namespace ProtoJS.Modules

namespace ESModuleLoader

variable {V : Type} (fs : FileSystem) (engine : Engine V)

section Graph

/-- The path a request resolves to. -/
def fileOf (request : Request) : String :=
  (ModuleResolver.resolve fs request.specifier request.fromPath).filePath

/-- The path and the source of the ES module that a request leads to. -/
def target (request : Request) : Option (String × String) :=
  let resolved := ModuleResolver.resolve fs request.specifier request.fromPath
  if resolved.filePath = "" ∨ resolved.type ≠ .esm then none
  else (fs.readFile resolved.filePath).map fun source => (resolved.filePath, source)

/-- The specifiers that `extractImports` finds in a source. -/
def importsOf (source : String) : List String :=
  (parseModule "" source : ESModuleRecord Unit).dependencies

/-- The imports of a file that lead to ES modules. -/
def requestsFrom (filePath source : String) : List Request :=
  ((importsOf source).map fun dep => ⟨dep, filePath⟩).filter fun request =>
    fileOf fs request ≠ "" ∧
      (ModuleResolver.resolve fs request.specifier request.fromPath).type = .esm

def graph : RequestGraph Request String where
  key := Request.cacheKey
  next request := (target fs request).map fun file => requestsFrom fs file.1 file.2

end Graph

section Specifiers

open Strings

theorem eq_quoted_of_importRegex {body : Regex} (isGroup : (6, body) ∈ importRegex.groups) :
    body = quoted := by
  have same : importRegex.groups = [(1, Regex.plus Regex.word), (2, braced),
    (3, Regex.plus Regex.word), (4, Regex.plus Regex.word), (5, braced), (6, quoted)] := by rfl
  rw [same] at isGroup
  simpa using isGroup

theorem eq_quoted_of_dynamicImportRegex {body : Regex}
    (isGroup : (1, body) ∈ dynamicImportRegex.groups) : body = quoted := by
  have same : dynamicImportRegex.groups = [(1, quoted)] := by rfl
  rw [same] at isGroup
  simpa using isGroup

/-- The texts that can stand between quotes. -/
def IsSpecifier (text : Text) : Prop := text ≠ [] ∧ ∀ c ∈ text, isQuote c = false

theorem isSpecifier_of_submatch {r : Regex} {index : ℕ} {input : Text} {captures : Captures}
    (found : captures ∈ Regex.matches_ r input) (part : r.takesPart index = true)
    (only : ∀ body, (index, body) ∈ r.groups → body = quoted) :
    IsSpecifier (Regex.submatch index captures) := by
  obtain ⟨body, cs, isGroup, taken⟩ := Regex.exists_group_of_submatch found part
  obtain rfl := only body isGroup
  obtain ⟨filled, accepted⟩ := Regex.accepts_of_matches_plus taken
  exact ⟨filled, fun c member => by simpa using accepted c member⟩

theorem isSpecifier_of_mem_importsOf {source dep : String} (member : dep ∈ importsOf source) :
    IsSpecifier dep.toList := by
  have listed : dep ∈ (Regex.matches_ importRegex source.toList).map
        (fun captures => String.ofList (Regex.submatch 6 captures)) ∨
      dep ∈ (Regex.matches_ dynamicImportRegex source.toList).map
        (fun captures => String.ofList (Regex.submatch 1 captures)) := List.mem_append.1 member
  rcases listed with static | dynamic
  · obtain ⟨captures, found, rfl⟩ := List.mem_map.1 static
    rw [String.toList_ofList]
    exact isSpecifier_of_submatch found rfl fun _ => eq_quoted_of_importRegex
  · obtain ⟨captures, found, rfl⟩ := List.mem_map.1 dynamic
    rw [String.toList_ofList]
    exact isSpecifier_of_submatch found rfl fun _ => eq_quoted_of_dynamicImportRegex

/-- Specifiers without colons are told apart by the cache key. -/
theorem eq_of_cacheKey_eq {r q : Request} (noColon : ':' ∉ r.specifier.toList)
    (noColon' : ':' ∉ q.specifier.toList) (same : r.cacheKey = q.cacheKey) : r = q := by
  have cut {specifier fromPath : Text} (noColon : ':' ∉ specifier) :
      (specifier ++ ':' :: fromPath).takeWhile (· != ':') = specifier ∧
        (specifier ++ ':' :: fromPath).dropWhile (· != ':') = ':' :: fromPath := by
    have others : ∀ c ∈ specifier, (c != ':') = true := by
      intro c member
      rw [bne_iff_ne]
      rintro rfl
      exact noColon member
    rw [List.takeWhile_append_of_pos others, List.dropWhile_append_of_pos others]
    simp
  have texts : r.specifier.toList ++ ':' :: r.fromPath.toList =
      q.specifier.toList ++ ':' :: q.fromPath.toList := by
    simpa [Request.cacheKey] using congrArg String.toList same
  have specifiers := congrArg (List.takeWhile (· != ':')) texts
  have paths := congrArg (List.dropWhile (· != ':')) texts
  rw [(cut noColon).1, (cut noColon').1] at specifiers
  rw [(cut noColon).2, (cut noColon').2] at paths
  exact congrArg₂ Request.mk (String.toList_inj.1 specifiers)
    (String.toList_inj.1 (List.cons.inj paths).2)

end Specifiers

/-- A sequence of loads, one after the other. -/
def loadAll (stack : ℕ) (s : LoaderState V) (calls : List Request) : Option (LoaderState V) :=
  calls.foldlM (fun s request => (loadModule fs engine stack s request).map Prod.snd) s

section Steps

variable {fs engine} {s s' : LoaderState V} {request : Request} {stack : ℕ} {outcome : Outcome}
  {filePath source : String}

theorem target_spec (found : target fs request = some (filePath, source)) :
    fileOf fs request = filePath ∧ filePath ≠ "" ∧
      (ModuleResolver.resolve fs request.specifier request.fromPath).type = .esm ∧
      fs.readFile filePath = some source := by
  rw [target] at found
  split_ifs at found with refused
  obtain ⟨content, read, same⟩ := Option.map_eq_some_iff.1 found
  obtain ⟨rfl, rfl⟩ := Prod.mk.inj same
  obtain ⟨present, esm⟩ := not_or.1 refused
  exact ⟨rfl, present, not_not.1 esm, read⟩

/-- The dependencies are loaded as requests of the graph. -/
theorem resolveDependencies_eq (load : Loading V) (s : LoaderState V) (record : ESModuleRecord V)
    (dependencies : record.dependencies = importsOf source) :
    resolveDependencies fs load s record =
      (requestsFrom fs record.filePath source).foldlM
        (fun s request => (load s request).map Prod.snd) s := by
  rw [resolveDependencies, requestsFrom, dependencies]
  induction importsOf source generalizing s with
  | nil => rfl
  | cons dep rest ih =>
    by_cases leads : (ModuleResolver.resolve fs dep record.filePath).filePath ≠ "" ∧
        (ModuleResolver.resolve fs dep record.filePath).type = .esm
    · rw [List.map_cons, List.filter_cons_of_pos (by rw [decide_eq_true_eq]; exact leads),
        List.foldlM_cons, List.foldlM_cons]
      simp only [if_pos leads]
      exact congrArg _ (funext ih)
    · rw [List.map_cons, List.filter_cons_of_neg (by rw [decide_eq_true_eq]; exact leads),
        List.foldlM_cons]
      simp only [if_neg leads]
      exact ih s

/-- The state after a fresh load, whose dependencies have been loaded. -/
def completed (engine : Engine V) (s : LoaderState V) (request : Request)
    (filePath source : String) : LoaderState V where
  cache := s.cache.put request.cacheKey
    { type := .esm
      moduleObject := s.objects.length
      filePath
      dependencies := importsOf source
      resolvedSpecifier := request.specifier }
  objects := s.objects ++ [[("__esModule", engine.newBool true)]]
  evaluations :=
    s.evaluations ++ [⟨filePath, (engine.evaluate s.evaluations filePath source).isSome⟩]
  loads := s.loads ++ [⟨request, s.objects.length⟩]

/-- The exports and the default export of a record are never filled, so the namespace object has
one property, whatever the evaluation does. -/
theorem finishLoad_eq (s : LoaderState V) (request : Request) (filePath source : String) :
    note request (finishLoad engine s request (moduleRecord request filePath source)) =
      (.namespaceObj s.objects.length, completed engine s request filePath source) := by
  cases evaluated : engine.evaluate s.evaluations filePath source with
  | none =>
    simp only [finishLoad, evaluateModule, moduleRecord, parseModule, extractExports,
      extractImports, evaluated, completed]
    rfl
  | some bindings =>
    simp only [finishLoad, evaluateModule, moduleRecord, parseModule, extractExports,
      extractImports, evaluated, completed]
    rfl

theorem loadModule_cached {object : ℕ}
    (cached : cachedObject s.cache request.cacheKey = some object) :
    loadModule fs engine (stack + 1) s request =
      some (.namespaceObj object, { s with loads := s.loads ++ [⟨request, object⟩] }) := by
  rw [loadModule, cached]
  rfl

/-- Without an ES module to read there is an error, and nothing changes. -/
theorem loadModule_refused (engine : Engine V) (stack : ℕ)
    (absent : cachedObject s.cache request.cacheKey = none) (refused : target fs request = none) :
    ∃ message, loadModule fs engine (stack + 1) s request = some (.typeError message, s) := by
  rw [loadModule, absent]
  simp only [loadUncached]
  split_ifs with notFound other
  · exact ⟨_, rfl⟩
  · exact ⟨_, rfl⟩
  · rw [target, if_neg (not_or.2 ⟨notFound, other⟩)] at refused
    rw [Option.map_eq_none_iff.1 refused]
    exact ⟨_, rfl⟩

theorem loadModule_fresh (absent : cachedObject s.cache request.cacheKey = none)
    (found : target fs request = some (filePath, source)) :
    loadModule fs engine (stack + 1) s request =
      (loadAll fs engine stack s (requestsFrom fs filePath source)).map fun s =>
        (.namespaceObj s.objects.length, completed engine s request filePath source) := by
  obtain ⟨rfl, present, esm, read⟩ := target_spec found
  rw [loadModule, absent]
  simp only [loadUncached, loadSource, fileOf] at present read ⊢
  rw [if_neg present, if_neg (not_not.2 esm), read]
  generalize (ModuleResolver.resolve fs request.specifier request.fromPath).filePath = filePath
  have dependencies : resolveDependencies fs (loadModule fs engine stack) s
      (moduleRecord request filePath source) =
        loadAll fs engine stack s (requestsFrom fs filePath source) :=
    resolveDependencies_eq _ _ _ rfl
  simp only [dependencies, Option.map_map]
  congr 1
  funext s
  exact finishLoad_eq s request filePath source

theorem exists_succ_of_loaded (loaded : loadModule fs engine stack s request = some (outcome, s')) :
    ∃ below, stack = below + 1 := by
  cases stack with
  | zero => exact absurd loaded (by simp [loadModule])
  | succ below => exact ⟨below, rfl⟩

/-- What a load that returns can have done. -/
theorem loadModule_cases
    (loaded : loadModule fs engine (stack + 1) s request = some (outcome, s')) :
    (∃ object, cachedObject s.cache request.cacheKey = some object ∧
      outcome = .namespaceObj object ∧ s' = { s with loads := s.loads ++ [⟨request, object⟩] }) ∨
    (cachedObject s.cache request.cacheKey = none ∧ target fs request = none ∧
      (∃ message, outcome = .typeError message) ∧ s' = s) ∨
    ∃ filePath source between, cachedObject s.cache request.cacheKey = none ∧
      target fs request = some (filePath, source) ∧
      loadAll fs engine stack s (requestsFrom fs filePath source) = some between ∧
      outcome = .namespaceObj between.objects.length ∧
      s' = completed engine between request filePath source := by
  cases cached : cachedObject s.cache request.cacheKey with
  | some object =>
    rw [loadModule_cached cached] at loaded
    obtain ⟨rfl, rfl⟩ := Prod.mk.inj (Option.some.inj loaded)
    exact .inl ⟨object, rfl, rfl, rfl⟩
  | none =>
    right
    cases found : target fs request with
    | none =>
      obtain ⟨message, refused⟩ := loadModule_refused engine stack cached found
      rw [refused] at loaded
      obtain ⟨rfl, rfl⟩ := Prod.mk.inj (Option.some.inj loaded)
      exact .inl ⟨rfl, rfl, ⟨message, rfl⟩, rfl⟩
    | some file =>
      obtain ⟨filePath, source⟩ := file
      rw [loadModule_fresh cached found] at loaded
      obtain ⟨between, nested, same⟩ := Option.map_eq_some_iff.1 loaded
      obtain ⟨rfl, rfl⟩ := Prod.mk.inj same
      exact .inr ⟨filePath, source, between, rfl, rfl, nested, rfl, rfl⟩

section Preservation

variable {P : LoaderState V → Prop}
  (cached : ∀ s request object, cachedObject s.cache request.cacheKey = some object → P s →
    P { s with loads := s.loads ++ [⟨request, object⟩] })
  (fresh : ∀ s request filePath source, target fs request = some (filePath, source) → P s →
    P (completed engine s request filePath source))

include cached fresh

/-- What cached and fresh loads keep, a load with all the loads below it keeps. -/
theorem loadModule_preserves (start : P s)
    (loaded : loadModule fs engine stack s request = some (outcome, s')) : P s' := by
  induction stack generalizing s request outcome s' with
  | zero => exact absurd loaded (by simp [loadModule])
  | succ stack ih =>
    rcases loadModule_cases loaded with ⟨object, found, -, rfl⟩ | ⟨-, -, -, rfl⟩ |
      ⟨filePath, source, between, -, found, nested, -, rfl⟩
    · exact cached s request object found start
    · exact start
    · refine fresh between request filePath source found (foldlM_preserves ?_ start nested)
      intro b call _ c step kept
      obtain ⟨⟨outcome, s'⟩, one, rfl⟩ := Option.map_eq_some_iff.1 step
      exact ih kept one

theorem loadAll_preserves {calls : List Request} (start : P s)
    (loaded : loadAll fs engine stack s calls = some s') : P s' := by
  refine foldlM_preserves ?_ start loaded
  intro b call _ c step kept
  obtain ⟨⟨outcome, s'⟩, one, rfl⟩ := Option.map_eq_some_iff.1 step
  exact loadModule_preserves cached fresh kept one

end Preservation

end Steps

section Refinement

variable {fs engine} {s₀ s s' : LoaderState V} {m m' : Memory Request} {request : Request}
  {stack : ℕ}

/-- The state of the loader is a memory, counted on from a state before. -/
structure Tracks (fs : FileSystem) (s₀ s : LoaderState V) (m : Memory Request) : Prop where
  cached : ∀ key, cachedObject s.cache key =
    (graph fs).number (cachedObject s₀.cache) s₀.objects.length m.done key
  objects : s.objects.length = s₀.objects.length + m.done.length
  loads : s.loads = s₀.loads ++ m.log.map fun e => ⟨e.1, e.2⟩
  evaluations : s.evaluations.map Evaluation.filePath =
    s₀.evaluations.map Evaluation.filePath ++ m.done.reverse.map (fileOf fs)

theorem Tracks.refl (s₀ : LoaderState V) : Tracks fs s₀ s₀ ⟨[], []⟩ where
  cached _ := rfl
  objects := rfl
  loads := by simp
  evaluations := by simp

theorem cachedObject_put (cache : ModuleCache) (key key' : String) (module : CachedModule)
    (esm : module.type = .esm) :
    cachedObject (cache.put key module) key' =
      if key = key' then some module.moduleObject else cachedObject cache key' := by
  rw [cachedObject, ModuleCache.get, ModuleCache.put]
  by_cases same : key = key'
  · subst same
    simp [esm]
  · rw [Function.update_of_ne (Ne.symm same), if_neg same]
    rfl

theorem Tracks.completed {filePath source : String} (tracks : Tracks fs s₀ s m)
    (found : target fs request = some (filePath, source)) :
    Tracks fs s₀ (completed engine s request filePath source)
      { done := request :: m.done
        log := m.log ++ [(request, s₀.objects.length + m.done.length)] } where
  cached key := by
    rw [ESModuleLoader.completed, cachedObject_put _ _ _ _ rfl, RequestGraph.number, tracks.objects]
    split_ifs with same
    · rfl
    · exact absurd same ‹_›
    · exact absurd ‹_› same
    · exact tracks.cached key
  objects := by
    simp [ESModuleLoader.completed, tracks.objects, Nat.add_assoc]
  loads := by
    simp [ESModuleLoader.completed, tracks.loads, tracks.objects]
  evaluations := by
    simp [ESModuleLoader.completed, tracks.evaluations, (target_spec found).1]

/-- A sequence of loads keeps to the visits of its requests when each load does. -/
theorem loadAll_agrees_of (tracks : Tracks fs s₀ s m) (calls : List Request)
    (agrees : ∀ {s m request}, Tracks fs s₀ s m →
      Option.Rel (fun result m' => Tracks fs s₀ result.2 m') (loadModule fs engine stack s request)
        ((graph fs).visit (cachedObject s₀.cache) s₀.objects.length stack m request)) :
    Option.Rel (Tracks fs s₀) (loadAll fs engine stack s calls)
      (calls.foldlM ((graph fs).visit (cachedObject s₀.cache) s₀.objects.length stack) m) := by
  refine foldlM_rel ?_ tracks
  intro s m request _ tracks
  have agrees : Option.Rel (Tracks fs s₀)
      ((loadModule fs engine stack s request).map Prod.snd)
      (((graph fs).visit (cachedObject s₀.cache) s₀.objects.length stack m request).map id) :=
    rel_map (fun _ _ tracks => tracks) (agrees tracks)
  rwa [Option.map_id_fun] at agrees

/-- A load returns exactly when the visit of its request does, and keeps to it. -/
theorem loadModule_agrees (stack : ℕ) (tracks : Tracks fs s₀ s m) :
    Option.Rel (fun result m' => Tracks fs s₀ result.2 m') (loadModule fs engine stack s request)
      ((graph fs).visit (cachedObject s₀.cache) s₀.objects.length stack m request) := by
  induction stack generalizing s m request with
  | zero => exact .none
  | succ stack ih =>
    rw [RequestGraph.visit, show (graph fs).key request = request.cacheKey from rfl,
      ← tracks.cached]
    cases cached : cachedObject s.cache request.cacheKey with
    | some object =>
      rw [loadModule_cached cached]
      exact .some { tracks with loads := by simp [tracks.loads] }
    | none =>
      rw [show (graph fs).next request = (target fs request).map _ from rfl]
      cases found : target fs request with
      | none =>
        obtain ⟨message, refused⟩ := loadModule_refused engine stack cached found
        rw [refused]
        exact .some tracks
      | some file =>
        rw [loadModule_fresh cached found]
        exact rel_map (fun _ _ tracks => tracks.completed found) (loadAll_agrees_of tracks _ ih)

theorem loadAll_agrees (tracks : Tracks fs s₀ s m) (calls : List Request) :
    Option.Rel (Tracks fs s₀) (loadAll fs engine stack s calls)
      (calls.foldlM ((graph fs).visit (cachedObject s₀.cache) s₀.objects.length stack) m) :=
  loadAll_agrees_of tracks calls (loadModule_agrees stack)

end Refinement

end ESModuleLoader

end ProtoJS.Modules
