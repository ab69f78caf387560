import ProtoJS.Modules.ESModuleVisits

/-! # One namespace object for one file

The cache is asked before the specifier is resolved, under a key made of the specifier and the
importing path. Loads of one file under two keys evaluate it twice and give two namespace objects.
Where all requests made for a file have one key, and requests with one key lead to one file, each
file is evaluated once and has one namespace object.
-/

namespace ProtoJS.Modules

/-- The file at a path, which may be reached under several paths. -/
def FileSystem.fileAt (fs : FileSystem) (path : String) : String := (fs.canonical path).getD path

namespace ESModuleLoader

variable {V : Type} (fs : FileSystem)

/-- The file that a request resolves to. -/
def requestedFile (request : Request) : String := fs.fileAt (fileOf fs request)

/-- A file imports another one. -/
def Imports (file file' : String) : Prop :=
  ∃ r q, requestedFile fs r = file ∧ (graph fs).Next r q ∧ requestedFile fs q = file'

/-- Finitely many ES modules, none of which imports itself, directly or not. -/
structure FiniteAcyclic : Prop where
  finite : {file | ∃ r, (target fs r).isSome ∧ requestedFile fs r = file}.Finite
  acyclic : ∀ file, ¬ Relation.TransGen (Imports fs) file file

/-- The calls and the imports below them. -/
def Made (calls : List Request) (r : Request) : Prop :=
  ∃ call ∈ calls, Relation.ReflTransGen (graph fs).Next call r

/-- The requests made for one module have one key. -/
def OneKeyPerFile (calls : List Request) : Prop :=
  ∀ r r', Made fs calls r → Made fs calls r' → (target fs r).isSome → (target fs r').isSome →
    requestedFile fs r = requestedFile fs r' → r.cacheKey = r'.cacheKey

/-- The requests made under one key lead to one file. -/
def OneFilePerKey (calls : List Request) : Prop :=
  ∀ r r', Made fs calls r → Made fs calls r' → r.cacheKey = r'.cacheKey →
    requestedFile fs r = requestedFile fs r'

/-- Two requests, made by calls or by imports, have two keys. -/
def DistinctKeys (calls : List Request) : Prop :=
  ∀ r r', Made fs calls r → Made fs calls r' → r.cacheKey = r'.cacheKey → r = r'

/-- A module with a successful evaluation has been evaluated once, and all loads of a module have
returned one namespace object. -/
structure Singletons (s : LoaderState V) : Prop where
  evaluated_once : ∀ e ∈ s.evaluations, e.succeeded →
    (s.evaluations.map fun e => fs.fileAt e.filePath).count (fs.fileAt e.filePath) = 1
  one_object : ∀ l ∈ s.loads, ∀ l' ∈ s.loads, (target fs l.request).isSome →
    (target fs l'.request).isSome → requestedFile fs l.request = requestedFile fs l'.request →
    l.object = l'.object

section Termination

variable {fs}

theorem target_isSome_of_next {r q : Request} (next : (graph fs).Next r q) :
    (target fs r).isSome := by
  obtain ⟨rs, dependencies, -⟩ := next
  obtain ⟨file, found, -⟩ := Option.map_eq_some_iff.1 dependencies
  rw [found]
  rfl

theorem transGen_imports {r q : Request} (next : Relation.TransGen (graph fs).Next r q) :
    Relation.TransGen (Imports fs) (requestedFile fs r) (requestedFile fs q) := by
  induction next with
  | single step => exact .single ⟨_, _, rfl, step, rfl⟩
  | tail _ step ih => exact ih.tail ⟨_, _, rfl, step, rfl⟩

/-- Along a chain of requests the files go down in an order without cycles. -/
theorem FiniteAcyclic.not_endless (finiteAcyclic : FiniteAcyclic fs) (initial : String → Option ℕ)
    (request : Request) : ¬ (graph fs).Endless initial request fun _ => True := by
  rintro ⟨chain, -, leads⟩
  have next (n : ℕ) : (graph fs).Next (chain n) (chain (n + 1)) := (leads n).2.2
  have down (n k : ℕ) : Relation.TransGen (Imports fs) (requestedFile fs (chain n))
      (requestedFile fs (chain (n + k + 1))) := by
    induction k with
    | zero => exact .single ⟨_, _, rfl, next n, rfl⟩
    | succ k ih => exact ih.tail ⟨_, _, rfl, next _, rfl⟩
  have inside : Set.MapsTo (fun n => requestedFile fs (chain n)) Set.univ
      {file | ∃ r, (target fs r).isSome ∧ requestedFile fs r = file} :=
    fun n _ => ⟨chain n, target_isSome_of_next (next n), rfl⟩
  -- Two requests of the chain are for one file.
  obtain ⟨n, -, k, -, differ, same⟩ :=
    Set.infinite_univ.exists_ne_map_eq_of_mapsTo inside finiteAcyclic.finite
  have cycle (i j : ℕ) (less : i < j)
      (same : requestedFile fs (chain i) = requestedFile fs (chain j)) : False := by
    have path := down i (j - i - 1)
    rw [show i + (j - i - 1) + 1 = j by omega, ← same] at path
    exact finiteAcyclic.acyclic _ path
  rcases lt_or_gt_of_ne differ with less | more
  · exact cycle n k less same
  · exact cycle k n more same.symm

/-- A sequence of loads returns when there are no cycles. -/
theorem FiniteAcyclic.exists_loadAll (finiteAcyclic : FiniteAcyclic fs) (engine : Engine V)
    (s : LoaderState V) (calls : List Request) :
    ∃ stack s', loadAll fs engine stack s calls = some s' := by
  have ends : ∀ r ∈ calls, ∀ m, ∃ stack m', (graph fs).visit (cachedObject s.cache)
      s.objects.length stack m r = some m' :=
    fun r _ m => RequestGraph.exists_visit (finiteAcyclic.not_endless _ r) m
  obtain ⟨stack, m, visited⟩ := RequestGraph.exists_foldlM_visit ends ⟨[], []⟩
  obtain ⟨s', loaded, -⟩ := exists_of_rel' (loadAll_agrees (Tracks.refl s) calls) visited
  exact ⟨stack, s', loaded⟩

end Termination

section Runs

variable {fs} {engine : Engine V} {calls : List Request} {stack : ℕ} {s : LoaderState V}
  {m : Memory Request}

theorem Made.next {r q : Request} (made : Made fs calls r) (next : (graph fs).Next r q) :
    Made fs calls q := by
  obtain ⟨call, member, reached⟩ := made
  exact ⟨call, member, reached.tail next⟩

theorem Made.trans {r q : Request} (made : Made fs calls r)
    (reached : Relation.ReflTransGen (graph fs).Next r q) : Made fs calls q := by
  obtain ⟨call, member, reachedFirst⟩ := made
  exact ⟨call, member, reachedFirst.trans reached⟩

theorem distinctKeys_of_noColon (noColon : ∀ r, Made fs calls r → ':' ∉ r.specifier.toList) :
    DistinctKeys fs calls :=
  fun r r' made made' same => eq_of_cacheKey_eq (noColon r made) (noColon r' made') same

/-- In a graph without cycles a module does not depend on a request with its own key. -/
theorem apart_of_oneFilePerKey (acyclic : ∀ file, ¬ Relation.TransGen (Imports fs) file file)
    (oneFile : OneFilePerKey fs calls) : (graph fs).Apart (Made fs calls) := by
  intro p q made reached same
  have file : requestedFile fs p = requestedFile fs q :=
    oneFile p q made (made.trans reached.to_reflTransGen) same
  have cycle := transGen_imports reached
  rw [← file] at cycle
  exact acyclic _ cycle

/-- What the visits leave behind is consistent. -/
theorem consistent_of_visits (acyclic : ∀ file, ¬ Relation.TransGen (Imports fs) file file)
    (oneFile : OneFilePerKey fs calls)
    (visited : calls.foldlM ((graph fs).visit (fun _ => none) 0 stack) ⟨[], []⟩ = some m) :
    (graph fs).Consistent (fun _ => none) 0 (Made fs calls) m := by
  have start : (graph fs).Consistent (fun _ => none) 0 (Made fs calls) ⟨[], []⟩ :=
    ⟨by simp, by simp, by simp, by simp⟩
  refine foldlM_preserves ?_ start visited
  intro b call member c visited kept
  exact kept.visit (fun p q made next => made.next next) (apart_of_oneFilePerKey acyclic oneFile)
    ⟨call, member, .refl⟩ visited

/-- Files are completed once, for their requests have one key. -/
theorem files_nodup (oneKey : OneKeyPerFile fs calls)
    (consistent : (graph fs).Consistent (fun _ => none) 0 (Made fs calls) m) :
    (m.done.map (requestedFile fs)).Nodup := by
  have keys := consistent.keys_nodup
  rw [List.Nodup, List.pairwise_map] at keys ⊢
  refine keys.imp_of_mem ?_
  intro r r' member member' differ same
  obtain ⟨made, present⟩ := consistent.done_mem r member
  obtain ⟨made', present'⟩ := consistent.done_mem r' member'
  rw [show (graph fs).next r = (target fs r).map _ from rfl, Option.isSome_map] at present
  rw [show (graph fs).next r' = (target fs r').map _ from rfl, Option.isSome_map] at present'
  exact differ (oneKey r r' made made' present present' same)

theorem singletons_of_consistent (oneKey : OneKeyPerFile fs calls) (tracks : Tracks fs empty s m)
    (consistent : (graph fs).Consistent (fun _ => none) 0 (Made fs calls) m) : Singletons fs s where
  evaluated_once e member _ := by
    have files : (s.evaluations.map fun e => fs.fileAt e.filePath) =
        (m.done.map (requestedFile fs)).reverse := by
      have paths := congrArg (List.map fs.fileAt) tracks.evaluations
      rw [List.map_map, show empty.evaluations = [] from rfl, List.map_nil, List.nil_append,
        List.map_map, List.map_reverse] at paths
      exact paths
    apply List.count_eq_one_of_mem
    · rw [files, List.nodup_reverse]
      exact files_nodup oneKey consistent
    · exact List.mem_map_of_mem member
  one_object l member l' member' present present' same := by
    rw [tracks.loads] at member member'
    obtain ⟨e, logged, rfl⟩ := List.mem_map.1 member
    obtain ⟨e', logged', rfl⟩ := List.mem_map.1 member'
    have key : e.1.cacheKey = e'.1.cacheKey :=
      oneKey _ _ (consistent.log_mem e logged) (consistent.log_mem e' logged') present
        present' same
    have number := consistent.settled e logged
    rw [show (graph fs).key e.1 = e'.1.cacheKey from key] at number
    exact Option.some.inj (number.symm.trans (consistent.settled e' logged'))

/-- Where keys tell requests apart, every module that calls and imports ask for is loaded. -/
theorem mem_log_of_made (distinct : DistinctKeys fs calls)
    (consistent : (graph fs).Consistent (fun _ => none) 0 (Made fs calls) m)
    (keyed : (graph fs).Keyed 0 m)
    (visited : calls.foldlM ((graph fs).visit (fun _ => none) 0 stack) ⟨[], []⟩ = some m)
    {r : Request} (made : Made fs calls r) (present : (target fs r).isSome) :
    r ∈ m.log.map Prod.fst := by
  have start : (graph fs).Recorded ⟨[], []⟩ := by simp [RequestGraph.Recorded]
  obtain ⟨recorded, -, logged⟩ := foldlM_forall (P := (graph fs).Recorded)
    (Q := fun b q => ((graph fs).next q).isSome → q ∈ b.log.map Prod.fst)
    (fun b a member c visited q shown present =>
      RequestGraph.log_subset_of_visit visited (shown present))
    (fun b q member c visited kept => kept.visit visited) start visited
  obtain ⟨call, member, reached⟩ := made
  refine RequestGraph.mem_log_of_reached keyed recorded ?_ (logged call member) reached
    (by rw [graph, Option.isSome_map]; exact present)
  intro q reached d done same
  exact distinct d q (consistent.done_mem d done).1 ⟨call, member, reached⟩ same

/-- Loads that have returned one object had one key. -/
theorem oneKeyPerFile_of_singletons (acyclic : ∀ file, ¬ Relation.TransGen (Imports fs) file file)
    (distinct : DistinctKeys fs calls) (tracks : Tracks fs empty s m)
    (visited : calls.foldlM ((graph fs).visit (fun _ => none) 0 stack) ⟨[], []⟩ = some m)
    (singletons : Singletons fs s) : OneKeyPerFile fs calls := by
  have keyed : (graph fs).Keyed 0 m :=
    foldlM_preserves (fun b _ _ c visited kept => kept.visit (fun _ => rfl) visited)
      (show (graph fs).Keyed 0 ⟨[], []⟩ by simp [RequestGraph.Keyed]) visited
  have consistent := consistent_of_visits acyclic
    (fun r r' made made' same => congrArg _ (distinct r r' made made' same)) visited
  have noted {r : Request} (made : Made fs calls r) (present : (target fs r).isSome) :
      ∃ e ∈ m.log, e.1 = r ∧ ⟨e.1, e.2⟩ ∈ s.loads := by
    obtain ⟨e, logged, same⟩ :=
      List.mem_map.1 (mem_log_of_made distinct consistent keyed visited made present)
    refine ⟨e, logged, same, ?_⟩
    rw [tracks.loads]
    exact List.mem_map_of_mem logged
  intro r r' made made' present present' file
  obtain ⟨e, logged, rfl, load⟩ := noted made present
  obtain ⟨e', logged', rfl, load'⟩ := noted made' present'
  exact keyed.key_eq logged logged' (singletons.one_object _ load _ load' present present' file)

/-- Loads in a graph without cycles return. Where the requests made for one module have one key,
and a key no two files, modules are singletons. Where different requests have different keys, they
are singletons only there. -/
theorem loadAll_singletons (finiteAcyclic : FiniteAcyclic fs) (engine : Engine V)
    (calls : List Request) :
    (∃ stack s, loadAll fs engine stack empty calls = some s) ∧
    ∀ stack s, loadAll fs engine stack empty calls = some s →
      (OneKeyPerFile fs calls → OneFilePerKey fs calls → Singletons fs s) ∧
      (DistinctKeys fs calls → (Singletons fs s ↔ OneKeyPerFile fs calls)) := by
  refine ⟨finiteAcyclic.exists_loadAll engine empty calls, ?_⟩
  intro stack s loaded
  obtain ⟨m, visited, tracks⟩ := exists_of_rel (loadAll_agrees (Tracks.refl empty) calls) loaded
  have enough (oneKey : OneKeyPerFile fs calls) (oneFile : OneFilePerKey fs calls) :
      Singletons fs s :=
    singletons_of_consistent oneKey tracks
      (consistent_of_visits finiteAcyclic.acyclic oneFile visited)
  refine ⟨enough, ?_⟩
  intro distinct
  constructor
  · exact oneKeyPerFile_of_singletons finiteAcyclic.acyclic distinct tracks visited
  · intro oneKey
    exact enough oneKey fun r r' made made' same => congrArg _ (distinct r r' made made' same)

end Runs

theorem readFile_ofFiles {files : List (String × String)} {directories : List String}
    {path source : String}
    (read : (FileSystem.ofFiles files directories).readFile path = some source) :
    (withoutDots path, source) ∈ files ∧
      (FileSystem.ofFiles files directories).fileAt path = withoutDots path := by
  have found : files.lookup (withoutDots path) = some source := read
  constructor
  · rw [List.lookup_eq_some_iff] at found
    obtain ⟨before, after, rfl, -⟩ := found
    simp
  · simp [FileSystem.fileAt, FileSystem.ofFiles, found]

/-- Files that import nothing. -/
theorem finiteAcyclic_ofFiles {files : List (String × String)} (directories : List String)
    (importless : ∀ file ∈ files, importsOf file.2 = []) :
    FiniteAcyclic (.ofFiles files directories) where
  finite := by
    apply (files.map Prod.fst).finite_toSet.subset
    rintro file ⟨r, present, rfl⟩
    obtain ⟨⟨filePath, source⟩, found⟩ := Option.isSome_iff_exists.1 present
    obtain ⟨rfl, -, -, read⟩ := target_spec found
    obtain ⟨member, same⟩ := readFile_ofFiles read
    rw [requestedFile, same]
    exact List.mem_map.2 ⟨_, member, rfl⟩
  acyclic file cycle := by
    obtain ⟨file', ⟨r, q, -, ⟨rs, dependencies, member⟩, -⟩, -⟩ :=
      Relation.TransGen.head'_iff.1 cycle
    obtain ⟨⟨filePath, source⟩, found, same⟩ := Option.map_eq_some_iff.1 dependencies
    obtain ⟨rfl, -, -, read⟩ := target_spec found
    rw [requestsFrom, importless _ (readFile_ofFiles read).1] at same
    rw [← same] at member
    exact List.not_mem_nil member

/-- Two modules that may import a third one. -/
def threeModules : FileSystem :=
  .ofFiles [("/app/a.mjs", ""), ("/app/b.mjs", ""), ("/app/c.mjs", "export const x = 1;")] ["/app"]

def fromA : Request := ⟨"./c.mjs", "/app/a.mjs"⟩

def fromB : Request := ⟨"./c.mjs", "/app/b.mjs"⟩

theorem finiteAcyclic_threeModules : FiniteAcyclic threeModules :=
  finiteAcyclic_ofFiles _ (by decide +kernel)

theorem loadAll_singletons_fromA :
    (∃ stack s, loadAll threeModules idleEngine stack empty [fromA] = some s) ∧
    ∀ stack s, loadAll threeModules idleEngine stack empty [fromA] = some s →
      (OneKeyPerFile threeModules [fromA] → OneFilePerKey threeModules [fromA] →
        Singletons threeModules s) ∧
      (DistinctKeys threeModules [fromA] →
        (Singletons threeModules s ↔ OneKeyPerFile threeModules [fromA])) :=
  loadAll_singletons finiteAcyclic_threeModules idleEngine [fromA]

/-- Two modules that import the third one get two evaluations of it and two namespace objects. -/
theorem loadAll_twoImporters :
    FiniteAcyclic threeModules ∧ ∃ stack s,
      loadAll threeModules idleEngine stack empty [fromA, fromB] = some s ∧
      s.loads = [⟨fromA, 0⟩, ⟨fromB, 1⟩] ∧
      s.evaluations = [⟨"/app/c.mjs", true⟩, ⟨"/app/c.mjs", true⟩] ∧
      ¬ Singletons threeModules s := by
  refine ⟨finiteAcyclic_threeModules, 1, ?_⟩
  have result : (loadAll threeModules idleEngine 1 empty [fromA, fromB]).map
      (fun s => (s.loads, s.evaluations)) = some ([⟨fromA, 0⟩, ⟨fromB, 1⟩],
        [⟨"/app/c.mjs", true⟩, ⟨"/app/c.mjs", true⟩]) := by decide +kernel
  obtain ⟨s, loaded, facts⟩ := Option.map_eq_some_iff.1 result
  obtain ⟨loads, evaluations⟩ := Prod.mk.inj facts
  refine ⟨s, loaded, loads, evaluations, ?_⟩
  intro singletons
  have once := singletons.evaluated_once ⟨"/app/c.mjs", true⟩ (by simp [evaluations]) rfl
  rw [evaluations] at once
  exact absurd once (by decide +kernel)

end ESModuleLoader

end ProtoJS.Modules
