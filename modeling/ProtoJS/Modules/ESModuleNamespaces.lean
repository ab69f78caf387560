import ProtoJS.Modules.ESModuleIdentity

/-! # What a load returns

`extractExports` extracts nothing and nothing else fills the exports of a record, so a namespace
object has one property, `__esModule`. `evaluateModule` prints an exception and drops it, so a load
of an ES module returns a namespace object and puts it into the cache, whatever was thrown.
-/

namespace ProtoJS.Modules

/-- The names that an export form adds. -/
def Export.names : Export → List String
  | .declaration name => [name]
  | .list names => names.map Prod.snd
  | .default => ["default"]

/-- The names that an export form adds, each with the value bound to it. A default export is bound
to a local name of its own. -/
def Export.values {V : Type} (bindings : String → V) : Export → List (String × V)
  | .declaration name => [(name, bindings name)]
  | .list names => names.map fun (localName, name) => (name, bindings localName)
  | .default => [("default", bindings "*default*")]

theorem Export.map_fst_values {V : Type} (bindings : String → V) (form : Export) :
    (form.values bindings).map Prod.fst = form.names := by
  cases form with
  | declaration name => rfl
  | list renamed => simp [values, names]
  | default => rfl

namespace ESModuleLoader

variable {V : Type} (fs : FileSystem) (engine : Engine V)

/-- What a source exports, with the values that an evaluation has bound. -/
def exportsOf (source : String) (bindings : String → V) : List (String × V) :=
  (engine.exports source).flatMap fun form => form.values bindings

/-- Beside `__esModule` an object has exactly one property for each export, with its value. -/
def Mirrors (properties exports : List (String × V)) : Prop :=
  (properties.map Prod.fst).Nodup ∧
    ∀ name, name ≠ "__esModule" → properties.lookup name = exports.lookup name

/-- Every namespace object has one property. -/
structure OnlyFlags (s : LoaderState V) : Prop where
  objects : ∀ properties ∈ s.objects, properties = [("__esModule", engine.newBool true)]
  cached : ∀ key object, cachedObject s.cache key = some object → object < s.objects.length

/-- The evaluation of a file or of one that it imports, directly or not, throws. -/
def Throws (request : Request) : Prop :=
  ∃ r filePath source before, Relation.ReflTransGen (graph fs).Next request r ∧
    target fs r = some (filePath, source) ∧ engine.evaluate before filePath source = none

/-- The load ends in an exception and leaves no entry for its file. -/
def Rejected (s : LoaderState V) (request : Request) : Prop :=
  ∃ stack message s', loadModule fs engine stack s request = some (.typeError message, s') ∧
    ∀ key cached, s'.cache.get key = some cached → cached.type = .esm →
      cached.filePath ≠ fileOf fs request

section Namespaces

variable {fs engine} {s s' : LoaderState V} {request : Request} {stack : ℕ} {outcome : Outcome}
  {object : ℕ}

theorem mirrors_onlyFlag_iff (flag : V) (source : String) (bindings : String → V) :
    Mirrors [("__esModule", flag)] (exportsOf engine source bindings) ↔
      ∀ form ∈ engine.exports source, ∀ name ∈ form.names, name = "__esModule" := by
  have names : (exportsOf engine source bindings).map Prod.fst =
      (engine.exports source).flatMap Export.names := by
    rw [exportsOf, List.map_flatMap]
    simp only [Export.map_fst_values]
  have absent {name : String} (differs : name ≠ "__esModule") :
      [("__esModule", flag)].lookup name = none := by
    rw [List.lookup_eq_none_iff]
    simpa using differs
  constructor
  · rintro ⟨-, mirrors⟩ form member name named
    by_contra differs
    have lookup := mirrors name differs
    rw [absent differs, eq_comm, List.lookup_eq_none_iff] at lookup
    have exported : name ∈ (exportsOf engine source bindings).map Prod.fst := by
      rw [names]
      exact List.mem_flatMap.2 ⟨form, member, named⟩
    obtain ⟨property, isExport, rfl⟩ := List.mem_map.1 exported
    exact absurd (lookup property isExport) (by simp)
  · intro only
    refine ⟨by simp, ?_⟩
    intro name differs
    rw [absent differs, eq_comm, List.lookup_eq_none_iff]
    intro property isExport
    have exported : property.1 ∈ (exportsOf engine source bindings).map Prod.fst :=
      List.mem_map_of_mem isExport
    rw [names] at exported
    obtain ⟨form, member, named⟩ := List.mem_flatMap.1 exported
    rw [only form member property.1 named]
    simpa using differs

theorem OnlyFlags.cachedLoad (onlyFlags : OnlyFlags engine s) (l : Load) :
    OnlyFlags engine { s with loads := s.loads ++ [l] } := ⟨onlyFlags.objects, onlyFlags.cached⟩

theorem OnlyFlags.completed (onlyFlags : OnlyFlags engine s) (request : Request)
    (filePath source : String) : OnlyFlags engine (completed engine s request filePath source) where
  objects properties member := by
    rcases List.mem_append.1 member with before | new
    · exact onlyFlags.objects properties before
    · exact List.mem_singleton.1 new
  cached key object found := by
    rw [ESModuleLoader.completed, cachedObject_put _ _ _ _ rfl] at found
    rw [ESModuleLoader.completed, List.length_append]
    split_ifs at found with same
    · rw [← Option.some.inj found]
      simp
    · have bound := onlyFlags.cached key object found
      omega

/-- A namespace object that is returned is in the cache. -/
theorem cachedObject_of_loaded
    (loaded : loadModule fs engine stack s request = some (.namespaceObj object, s')) :
    cachedObject s'.cache request.cacheKey = some object := by
  obtain ⟨below, rfl⟩ := exists_succ_of_loaded loaded
  rcases loadModule_cases loaded with ⟨object', cached, same, rfl⟩ | ⟨-, -, ⟨message, failed⟩, -⟩ |
    ⟨filePath, source, between, -, -, -, same, rfl⟩
  · rw [Outcome.namespaceObj.inj same]
    exact cached
  · exact absurd failed (by simp)
  · rw [completed, cachedObject_put _ _ _ _ rfl, if_pos rfl, Outcome.namespaceObj.inj same]

/-- A load of an ES module never ends in an exception. -/
theorem exists_namespaceObj (found : (target fs request).isSome)
    (loaded : loadModule fs engine stack s request = some (outcome, s')) :
    ∃ object, outcome = .namespaceObj object := by
  obtain ⟨below, rfl⟩ := exists_succ_of_loaded loaded
  rcases loadModule_cases loaded with ⟨object, -, rfl, -⟩ | ⟨-, refused, -, -⟩ |
    ⟨filePath, source, between, -, -, -, rfl, -⟩
  · exact ⟨object, rfl⟩
  · rw [refused] at found
    exact absurd found (by simp)
  · exact ⟨_, rfl⟩

theorem onlyFlags_of_loadAll {calls : List Request}
    (reached : loadAll fs engine stack empty calls = some s) : OnlyFlags engine s :=
  loadAll_preserves (fun _ _ _ _ onlyFlags => onlyFlags.cachedLoad _)
    (fun _ request filePath source _ onlyFlags => onlyFlags.completed request filePath source)
    ⟨by simp [empty], by simp [empty, cachedObject, ModuleCache.get]⟩ reached

/-- After any loads, the namespace object that a load returns mirrors the exports of its source if
and only if the source exports no name other than `__esModule`. -/
theorem namespaceObj_mirrors_iff {calls : List Request} {stack' : ℕ}
    (reached : loadAll fs engine stack' empty calls = some s)
    (loaded : loadModule fs engine stack s request = some (.namespaceObj object, s')) :
    ∃ properties, s'.objects[object]? = some properties ∧
      ∀ filePath source before bindings, target fs request = some (filePath, source) →
        engine.evaluate before filePath source = some bindings →
        (Mirrors properties (exportsOf engine source bindings) ↔
          ∀ form ∈ engine.exports source, ∀ name ∈ form.names, name = "__esModule") := by
  have onlyFlags : OnlyFlags engine s' :=
    loadModule_preserves (fun _ _ _ _ onlyFlags => onlyFlags.cachedLoad _)
      (fun _ request filePath source _ onlyFlags => onlyFlags.completed request filePath source)
      (onlyFlags_of_loadAll reached) loaded
  have bound := onlyFlags.cached _ object (cachedObject_of_loaded loaded)
  refine ⟨s'.objects[object], List.getElem?_eq_getElem bound, ?_⟩
  intro filePath source before bindings _ _
  rw [onlyFlags.objects _ (List.getElem_mem bound)]
  exact mirrors_onlyFlag_iff _ source bindings

end Namespaces

/-- An engine that binds 1 to every name and finds one export in one source. -/
def oneExport : Engine ℕ where
  newBool b := if b then 1 else 0
  evaluate _ _ _ := some fun _ => 1
  exports source := if source = "export const x = 1;" then [.declaration "x"] else []

theorem loadModule_oneExport : ∃ s', loadModule threeModules oneExport 1 empty fromA =
    some (.namespaceObj 0, s') ∧ s'.objects = [[("__esModule", 1)]] := by
  have result : (loadModule threeModules oneExport 1 empty fromA).map
      (fun result => (result.1, result.2.objects)) =
        some (.namespaceObj 0, [[("__esModule", 1)]]) := by decide +kernel
  obtain ⟨⟨outcome, s'⟩, loaded, facts⟩ := Option.map_eq_some_iff.1 result
  obtain ⟨same, objects⟩ := Prod.mk.inj facts
  exact ⟨s', by rw [loaded, ← same], objects⟩

theorem namespaceObj_mirrors_iff_oneExport :
    ∃ s', loadModule threeModules oneExport 1 empty fromA = some (.namespaceObj 0, s') ∧
    ∃ properties, s'.objects[0]? = some properties ∧
      ∀ filePath source before bindings, target threeModules fromA = some (filePath, source) →
        oneExport.evaluate before filePath source = some bindings →
        (Mirrors properties (exportsOf oneExport source bindings) ↔
          ∀ form ∈ oneExport.exports source, ∀ name ∈ form.names, name = "__esModule") := by
  obtain ⟨s', loaded, -⟩ := loadModule_oneExport
  have reached : loadAll threeModules oneExport 0 empty [] = some empty := rfl
  exact ⟨s', loaded, namespaceObj_mirrors_iff reached loaded⟩

/-- The one export is missing. -/
theorem loadModule_missingExport :
    ∃ s' source bindings,
      loadModule threeModules oneExport 1 empty fromA = some (.namespaceObj 0, s') ∧
      target threeModules fromA = some ("/app/c.mjs", source) ∧
      oneExport.evaluate [] "/app/c.mjs" source = some bindings ∧
      exportsOf oneExport source bindings = [("x", 1)] ∧
      ∀ properties ∈ s'.objects[0]?,
        ¬ Mirrors properties (exportsOf oneExport source bindings) := by
  obtain ⟨s', loaded, objects⟩ := loadModule_oneExport
  refine ⟨s', "export const x = 1;", fun _ => 1, loaded, by decide +kernel, rfl, by decide, ?_⟩
  rintro properties found ⟨-, mirrors⟩
  rw [objects] at found
  obtain rfl := Option.some.inj found
  exact absurd (mirrors "x" (by decide)) (by decide)

section Failures

variable {fs engine} {request : Request}

theorem target_isSome_of_throws (throws : Throws fs engine request) :
    (target fs request).isSome := by
  obtain ⟨r, filePath, source, before, reached, found, -⟩ := throws
  rcases Relation.ReflTransGen.cases_head reached with rfl | ⟨q, next, -⟩
  · rw [found]
    rfl
  · exact target_isSome_of_next next

/-- The cache entry of a fresh load is for its file. -/
theorem filePath_of_fresh {stack : ℕ} {s s' : LoaderState V} {object : ℕ}
    (absent : cachedObject s.cache request.cacheKey = none)
    (loaded : loadModule fs engine stack s request = some (.namespaceObj object, s')) :
    ∃ cached, s'.cache.get request.cacheKey = some cached ∧
      cached.filePath = fileOf fs request := by
  obtain ⟨below, rfl⟩ := exists_succ_of_loaded loaded
  rcases loadModule_cases loaded with ⟨object', cached, -, -⟩ | ⟨-, -, ⟨message, failed⟩, -⟩ |
    ⟨filePath, source, between, -, found, -, -, rfl⟩
  · rw [absent] at cached
    exact absurd cached (by simp)
  · exact absurd failed (by simp)
  · refine ⟨_, Function.update_self _ _ _, ?_⟩
    exact (target_spec found).1.symm

/-- A load of a file that throws, or that imports one that does, is never rejected. When it returns,
it returns a namespace object that is in the cache, and later loads return it again. -/
theorem throwing_load_published (throws : Throws fs engine request) (s : LoaderState V) :
    ¬ Rejected fs engine s request ∧
    ∀ stack outcome s', loadModule fs engine stack s request = some (outcome, s') →
      ∃ object, outcome = .namespaceObj object ∧
        cachedObject s'.cache request.cacheKey = some object ∧
        (cachedObject s.cache request.cacheKey = none → ∃ cached,
          s'.cache.get request.cacheKey = some cached ∧ cached.filePath = fileOf fs request) ∧
        ∀ later, (loadModule fs engine (later + 1) s' request).map Prod.fst =
          some (.namespaceObj object) := by
  have found := target_isSome_of_throws throws
  constructor
  · rintro ⟨stack, message, s', loaded, -⟩
    obtain ⟨object, same⟩ := exists_namespaceObj found loaded
    exact absurd same (by simp)
  · intro stack outcome s' loaded
    obtain ⟨object, rfl⟩ := exists_namespaceObj found loaded
    have cached := cachedObject_of_loaded loaded
    refine ⟨object, rfl, cached, fun absent => filePath_of_fresh absent loaded, ?_⟩
    intro later
    rw [loadModule_cached cached]
    rfl

/-- An engine in which every evaluation throws. -/
def throwingEngine : Engine Unit where
  newBool _ := ()
  evaluate _ _ _ := none
  exports _ := []

theorem throws_fromA : Throws threeModules throwingEngine fromA :=
  ⟨fromA, "/app/c.mjs", "export const x = 1;", [], .refl, by decide +kernel, rfl⟩

theorem throwing_load_published_fromA :
    ¬ Rejected threeModules throwingEngine empty fromA ∧
    ∀ stack outcome s', loadModule threeModules throwingEngine stack empty fromA =
      some (outcome, s') → ∃ object, outcome = .namespaceObj object ∧
        cachedObject s'.cache fromA.cacheKey = some object ∧
        (cachedObject (empty : LoaderState Unit).cache fromA.cacheKey = none → ∃ cached,
          s'.cache.get fromA.cacheKey = some cached ∧
            cached.filePath = fileOf threeModules fromA) ∧
        ∀ later, (loadModule threeModules throwingEngine (later + 1) s' fromA).map Prod.fst =
          some (.namespaceObj object) :=
  throwing_load_published throws_fromA empty

/-- The module throws, and the load returns a namespace object and leaves an entry for it. -/
theorem loadModule_throwing :
    Throws threeModules throwingEngine fromA ∧ ¬ Rejected threeModules throwingEngine empty fromA ∧
    ∃ s' cached, loadModule threeModules throwingEngine 1 empty fromA = some (.namespaceObj 0, s') ∧
      s'.evaluations = [⟨"/app/c.mjs", false⟩] ∧
      s'.cache.get fromA.cacheKey = some cached ∧ cached.filePath = "/app/c.mjs" := by
  have result : (loadModule threeModules throwingEngine 1 empty fromA).map (fun result =>
      (result.1, result.2.evaluations,
        (result.2.cache.get fromA.cacheKey).map CachedModule.filePath)) =
        some (.namespaceObj 0, [⟨"/app/c.mjs", false⟩], some "/app/c.mjs") := by decide +kernel
  refine ⟨throws_fromA, ?_, ?_⟩
  · rintro ⟨stack, message, s', loaded, -⟩
    obtain ⟨object, same⟩ := exists_namespaceObj (target_isSome_of_throws throws_fromA) loaded
    exact absurd same (by simp)
  · obtain ⟨⟨outcome, s'⟩, loaded, facts⟩ := Option.map_eq_some_iff.1 result
    obtain ⟨same, evaluations, entry⟩ := by simpa using facts
    obtain ⟨cached, there, path⟩ := entry
    exact ⟨s', cached, by rw [loaded, ← same], evaluations, there, path⟩

end Failures

end ESModuleLoader

end ProtoJS.Modules
