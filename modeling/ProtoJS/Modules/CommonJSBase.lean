import ProtoJS.Modules.CommonJSSteps

/-! # Where a require is resolved from

`requireImpl` takes the path to resolve from out of the global `__filename`. The main program sets
that once and no evaluation changes it, so every require of a run is resolved against the directory
of the main script, whichever module it stands in and however deep.
-/

namespace ProtoJS.Modules.CommonJSLoader

open ModuleResolver

variable {env : Environment} {globalFilename : Option String} {s : State} {f : Frame}
  {key : String}

section Requests

private theorem wrapModule_requests {source : String} :
    (wrapModule env s key source).requests = s.requests := by
  obtain ⟨heap, created⟩ := createModuleObjects_eq s key
  simp only [wrapModule, created]
  split
  · rw [deliver_requests]
    rfl
  · rfl

/-- A call with a specifier is noted with its module and with the path it is resolved from. -/
theorem requireImpl_requests (env : Environment) (s : State) (specifier : String) :
    (requireImpl env s (some specifier)).requests =
      s.requests ++ [⟨s.active.head?, specifier, s.fromPath⟩] := by
  have answered := requires env (s.request specifier) specifier s.fromPath
  unfold requireImpl
  simp only
  generalize require env (s.request specifier) specifier s.fromPath = answer at answered
  cases answered with
  | evaluate source _ _ _ => exact wrapModule_requests
  | _ => exact deliver_requests

/-- A step notes one call at most, resolved from the global `__filename` of its time. -/
theorem requests_next (env : Environment) (s : State) (a : Action) :
    (next env s a).requests = s.requests ∨ ∃ specifier, (next env s a).requests =
      s.requests ++ [⟨s.active.head?, specifier, s.fromPath⟩] := by
  cases a with
  | require argument =>
    cases argument with
    | none => exact .inl deliver_requests
    | some specifier => exact .inr ⟨specifier, requireImpl_requests env s specifier⟩
  | run =>
    have ran := runs env s
    rw [next]
    generalize run env s = t at ran ⊢
    cases ran with
    | idle => exact .inl rfl
    | failed | completed => exact .inl deliver_requests
    | executed f outer stmt rest there =>
      rcases execute_cases env s { f with rest := rest } stmt with
        ⟨g, heap, allocated, _, _, _, same⟩ | ⟨argument, caught, _, same⟩ <;> rw [same]
      · exact .inl rfl
      · cases argument with
        | none => exact .inl deliver_requests
        | some specifier =>
          rw [State.active, there]
          exact .inr ⟨specifier, requireImpl_requests env _ specifier⟩

/-- Every call of a run is resolved from the path that the main program has set. -/
theorem fromPath_of_reachable (reachable : (loader env globalFilename).Reachable s) :
    ∀ r ∈ s.requests, r.fromPath = globalFilename.getD "." := by
  refine reachable.invariant (P := fun s => ∀ r ∈ s.requests, r.fromPath = globalFilename.getD ".")
    nofun ?_
  intro s a reachable _ based r member
  change r ∈ (next env s a).requests at member
  rcases requests_next env s a with same | ⟨specifier, same⟩
  · exact based r (same ▸ member)
  · rw [same] at member
    rcases List.mem_append.mp member with before | new
    · exact based r before
    · rw [List.mem_singleton.mp new, State.fromPath, globalFilename_of_reachable reachable]

end Requests

section Directories

variable (fs : FileSystem)

/-- The directory that holds a file. -/
def directoryOf (filePath : String) : String :=
  match findLastSlash filePath with
  | none => "."
  | some 0 => "/"
  | some lastSlash => substr filePath 0 lastSlash

/-- Two paths of one directory. -/
def SameDirectory (a b : String) : Prop :=
  a = b ∨ ∃ directory, fs.canonical a = some directory ∧ fs.canonical b = some directory

instance (a b : String) : Decidable (SameDirectory fs a b) :=
  decidable_of_iff (a = b ∨ (fs.canonical a).isSome ∧ fs.canonical a = fs.canonical b) (by
    rw [SameDirectory, Option.isSome_iff_exists]
    refine or_congr_right ⟨?_, ?_⟩
    · rintro ⟨⟨directory, found⟩, same⟩
      exact ⟨directory, found, same ▸ found⟩
    · rintro ⟨directory, found, found'⟩
      exact ⟨⟨directory, found⟩, found.trans found'.symm⟩)

/-- The call takes its specifier as relative to the directory. -/
def Request.ResolvedAgainst (r : Request) (directory : String) : Prop :=
  resolve fs r.specifier r.fromPath =
      resolveRelative fs (fromDir fs r.fromPath) r.specifier ∧
    SameDirectory fs (fromDir fs r.fromPath) directory

end Directories

/-- A relative require in a module is resolved against the directory of that module exactly when
the main script is in the same one. -/
theorem resolved_against_own_directory_iff (reachable : (loader env globalFilename).Reachable s)
    {r : Request} (called : r ∈ s.requests) (relative : isRelative r.specifier = true) :
    ∀ path ∈ r.requester, r.ResolvedAgainst env.fileSystem (directoryOf path) ↔
      SameDirectory env.fileSystem (fromDir env.fileSystem (globalFilename.getD "."))
        (directoryOf path) := by
  intro path _
  rw [Request.ResolvedAgainst, fromPath_of_reachable reachable r called]
  exact and_iff_right (resolve_of_isRelative relative)

section Nested

/-- A main script, a module in a directory below, and a module of one name in both. -/
def nested : Environment :=
  .ofFiles
    (.ofFiles [("/app/main.js", ""), ("/app/a.js", "a"), ("/app/b.js", ""), ("/app/lib/a.js", "a"),
      ("/app/lib/b.js", "")] ["/app", "/app/lib"])
    fun source => if source = "a" then .ok [.require (some "./b.js") false] else .ok []

/-- Next to the main script the module gets its neighbour. -/
theorem resolved_against_own_directory_iff_beside :
    ∃ s r, (loader nested (some "/app/main.js")).Reachable s ∧ r ∈ s.requests ∧
      r.requester = some "/app/a.js" ∧ r.specifier = "./b.js" ∧
      r.ResolvedAgainst nested.fileSystem (directoryOf "/app/a.js") := by
  obtain ⟨s, run, called⟩ := (loader nested (some "/app/main.js")).exists_run_of_replay
    (loader nested (some "/app/main.js")).initial [.require (some "./a.js"), .run]
    (fun s => ⟨some "/app/a.js", "./b.js", "/app/main.js"⟩ ∈ s.requests) (by decide)
  exact ⟨s, _, ⟨_, run⟩, called, rfl, rfl,
    (resolved_against_own_directory_iff ⟨_, run⟩ called (by decide) _ rfl).mpr (by decide)⟩

/-- In the directory below it gets the neighbour of the main script instead. -/
theorem nested_gets_neighbour_of_main :
    ∃ s r, (loader nested (some "/app/main.js")).Reachable s ∧ r ∈ s.requests ∧
      r.requester = some "/app/lib/a.js" ∧ r.specifier = "./b.js" ∧
      s.active = ["/app/b.js", "/app/lib/a.js"] ∧
      (resolveRelative nested.fileSystem (directoryOf "/app/lib/a.js") r.specifier).filePath =
        "/app/lib/b.js" ∧
      ¬r.ResolvedAgainst nested.fileSystem (directoryOf "/app/lib/a.js") := by
  obtain ⟨s, run, called, active⟩ := (loader nested (some "/app/main.js")).exists_run_of_replay
    (loader nested (some "/app/main.js")).initial [.require (some "./lib/a.js"), .run]
    (fun s => ⟨some "/app/lib/a.js", "./b.js", "/app/main.js"⟩ ∈ s.requests ∧
      s.active = ["/app/b.js", "/app/lib/a.js"]) (by decide)
  refine ⟨s, _, ⟨_, run⟩, called, rfl, rfl, active, by decide, ?_⟩
  rintro ⟨_, same⟩
  exact absurd same (by decide)

end Nested

end ProtoJS.Modules.CommonJSLoader
