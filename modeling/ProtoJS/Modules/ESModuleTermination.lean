import ProtoJS.Modules.ESModuleVisits

/-! # When a load returns

A request is put into the cache when its load is completed, not when it begins. A module that is
imported again while it is being loaded is therefore loaded once more, and its importers with it,
until the stack is used up.
-/

namespace ProtoJS.Modules.ESModuleLoader

variable {V : Type} (fs : FileSystem) (engine : Engine V) (s : LoaderState V) (request : Request)

/-- A chain of requests of some kind that goes on forever: each is not in the cache and leads to an
ES module, which imports the next. -/
def EndlessChain (kind : Request → Prop) : Prop :=
  (graph fs).Endless (cachedObject s.cache) request kind

/-- No other request in the import graph below the first one has the cache key. -/
def HasOwnKey (r : Request) : Prop := (graph fs).OwnKey request r

variable {fs request} in
theorem hasOwnKey_of_noColon {r : Request}
    (noColon : ∀ q, Relation.ReflTransGen (graph fs).Next request q → ':' ∉ q.specifier.toList)
    (reached : Relation.ReflTransGen (graph fs).Next request r) : HasOwnKey fs request r :=
  fun q reachedQ same => eq_of_cacheKey_eq (noColon q reachedQ) (noColon r reached) same

theorem returns_iff_visit :
    Returns fs engine s request ↔ ∃ stack m,
      (graph fs).visit (cachedObject s.cache) s.objects.length stack ⟨[], []⟩ request = some m := by
  rw [Returns]
  apply exists_congr
  intro stack
  have agrees : Option.Rel (fun result m => Tracks fs s result.2 m)
      (loadModule fs engine stack s request) ((graph fs).visit (cachedObject s.cache)
        s.objects.length stack ⟨[], []⟩ request) := loadModule_agrees stack (Tracks.refl s)
  rw [Option.isSome_iff_exists]
  constructor
  · rintro ⟨result, loaded⟩
    obtain ⟨m, visited, -⟩ := exists_of_rel agrees loaded
    exact ⟨m, visited⟩
  · rintro ⟨m, visited⟩
    obtain ⟨result, loaded, -⟩ := exists_of_rel' agrees visited
    exact ⟨result, loaded⟩

/-- A load returns when no chain of uncached requests goes on forever. It does not return when one
with keys of their own does. Where every request has a key of its own, that decides. -/
theorem loadModule_returns :
    (¬ EndlessChain fs s request (fun _ => True) → Returns fs engine s request) ∧
    (Returns fs engine s request → ¬ EndlessChain fs s request (HasOwnKey fs request)) ∧
    ((∀ r, Relation.ReflTransGen (graph fs).Next request r → HasOwnKey fs request r) →
      (Returns fs engine s request ↔ ¬ EndlessChain fs s request fun _ => True)) := by
  have enough (ends : ¬ EndlessChain fs s request fun _ => True) : Returns fs engine s request :=
    (returns_iff_visit fs engine s request).2 (RequestGraph.exists_visit ends ⟨[], []⟩)
  have needed (returns : Returns fs engine s request) :
      ¬ EndlessChain fs s request (HasOwnKey fs request) := by
    obtain ⟨stack, m, visited⟩ := (returns_iff_visit fs engine s request).1 returns
    exact RequestGraph.not_endless_of_visit visited
  refine ⟨enough, needed, ?_⟩
  intro own
  refine ⟨?_, enough⟩
  rintro returns ⟨chain, first, leads⟩
  apply needed returns
  refine ⟨chain, first, fun n => ⟨own _ ?_, (leads n).2⟩⟩
  -- Every request of the chain is in the import graph.
  induction n with
  | zero => rw [first]
  | succ n ih => exact ih.tail (leads n).2.2

/-- A module that imports itself. -/
def selfImport : FileSystem :=
  .ofFiles [("/app/a.mjs", "import a from './a.mjs';")] ["/app"]

def selfRequest : Request := ⟨"./a.mjs", "/app/a.mjs"⟩

theorem next_selfRequest : (graph selfImport).next selfRequest = some [selfRequest] := by
  decide +kernel

/-- The module imports nothing but itself. -/
theorem eq_selfRequest {q : Request}
    (reached : Relation.ReflTransGen (graph selfImport).Next selfRequest q) : q = selfRequest := by
  induction reached with
  | refl => rfl
  | tail _ step ih =>
    obtain ⟨rs, dependencies, member⟩ := step
    rw [ih, next_selfRequest] at dependencies
    rw [← Option.some.inj dependencies] at member
    exact List.mem_singleton.1 member

theorem selfImport_never_returns : ¬ Returns selfImport idleEngine empty selfRequest := by
  intro returns
  obtain ⟨stack, m, visited⟩ := (returns_iff_visit _ _ _ _).1 returns
  apply RequestGraph.not_endless_of_visit visited
  have next : (graph selfImport).Next selfRequest selfRequest :=
    ⟨[selfRequest], next_selfRequest, by simp⟩
  exact ⟨fun _ => selfRequest, rfl, fun n => ⟨fun q reached _ => eq_selfRequest reached, rfl, next⟩⟩

end ProtoJS.Modules.ESModuleLoader
