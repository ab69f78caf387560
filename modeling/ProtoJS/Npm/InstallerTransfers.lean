import ProtoJS.Npm.InstallerRuns

/-! # What is extracted was written before

The path of a tarball is put together three times: where it is downloaded to, and where each of the
two installers extracts it. Whatever the world does, no installer extracts a path to which no
download has been written.
-/

namespace ProtoJS.Npm

open Strings Effects

/-- A download that was written to a path, or an extraction that is started on one. -/
inductive Transfer where
  | written (path : Text)
  | extracted (path : Text)
deriving DecidableEq, Repr

/-- The world with a log of the transfers. -/
def World.loggingTransfers {σ : Type} (w : World σ) : World (σ × List Transfer) where
  fetchPackage := w.fetchPackage
  pathExists path := lift (w.pathExists path)
  createDirectories path := lift (w.createDirectories path)
  removeAll path := lift (w.removeAll path)
  httpDownload url targetPath := do
    let returned ← lift (w.httpDownload url targetPath)
    if returned then record (.written targetPath)
    return returned
  system tarballPath targetDir := do
    record (.extracted tarballPath)
    lift (w.system tarballPath targetDir)
  readFile path := lift (w.readFile path)

/-- A path is extracted only after it was written. -/
inductive Justified : List Transfer → Prop
  | nil : Justified []
  | written {log} (path : Text) (before : Justified log) : Justified (log ++ [.written path])
  | extracted {log path} (there : .written path ∈ log) (before : Justified log) :
    Justified (log ++ [.extracted path])

namespace PackageInstaller

open NPMRegistry

variable {σ : Type} {w : World σ} {options : InstallOptions} {paths : List Text}
  {specs : List DownloadSpec}

/-- The log is justified, and these paths have been written. -/
def Holds (paths : List Text) (s : σ × List Transfer) : Prop :=
  Justified s.2 ∧ ∀ path ∈ paths, .written path ∈ s.2

theorem Holds.mono {paths' : List Text} {s : σ × List Transfer} (holds : Holds paths s)
    (fewer : paths' ⊆ paths) : Holds paths' s :=
  ⟨holds.1, fun path member => holds.2 path (fewer member)⟩

/-- The path to which a spec is downloaded. -/
def targetOf (s : DownloadSpec) : Text := tarballPath s.targetDir s.packageName s.version

/-- The paths of the specs whose download has returned true. -/
def writtenBy (specs : List DownloadSpec) (results : List Bool) : List Text :=
  (specs.zip results).filterMap fun download =>
    if download.2 then some (targetOf download.1) else none

theorem writtenBy_append {batch : List DownloadSpec} {results oks : List Bool}
    (lengths : specs.length = results.length) : writtenBy (specs ++ batch) (results ++ oks) =
      writtenBy specs results ++ writtenBy batch oks := by
  rw [writtenBy, List.zip_append lengths, List.filterMap_append]
  rfl

/-- The log is justified when an action throws. -/
abbrev Thrown (_ : Failure) (s : σ × List Transfer) : Prop := Justified s.2

section Calls

theorem triple_lift_holds {α : Type} (a : EStateM Failure σ α) :
    Triple (Holds paths) (lift a : EStateM Failure (σ × List Transfer) α) (fun _ => Holds paths)
      (fun _ => Holds paths) :=
  Triple.lift (L := fun log => Justified log ∧ ∀ path ∈ paths, Transfer.written path ∈ log) a

theorem triple_lift {α : Type} (a : EStateM Failure σ α) :
    Triple (Holds paths) (lift a : EStateM Failure (σ × List Transfer) α) (fun _ => Holds paths)
      Thrown :=
  (triple_lift_holds a).weaken (fun _ holds => holds) (fun _ _ holds => holds)
    fun _ _ holds => holds.1

theorem triple_resolve (packageName versionRange registry : Text) :
    Triple (Holds paths) (resolve w.loggingTransfers packageName versionRange registry)
      (fun _ => Holds paths) Thrown := by
  rw [resolve]
  split
  · exact Triple.pure fun _ holds => holds
  · exact Triple.throw fun _ holds => holds.1

/-- Where the download returns true, its path has been written. -/
theorem triple_downloadPackage (packageName version targetDir registry : Text) :
    Triple (Holds paths)
      (downloadPackage w.loggingTransfers packageName version targetDir registry)
      (fun ok => Holds (paths ++ if ok then [tarballPath targetDir packageName version] else []))
      (fun _ => Holds paths) := by
  have unchanged : ∀ s : σ × List Transfer, Holds paths s → Holds (paths ++ []) s := by simp
  rw [downloadPackage_eq]
  split
  · exact Triple.pure unchanged
  · apply (triple_lift_holds _).bind
    intro _
    apply (triple_lift_holds _).bind
    intro ok
    cases ok with
    | false => exact Triple.pure unchanged
    | true =>
      intro s holds
      refine ⟨.written _ holds.1, ?_⟩
      rw [if_pos rfl, List.forall_mem_append, List.forall_mem_singleton]
      exact ⟨fun path member => List.mem_append_left _ (holds.2 path member),
        List.mem_append_right _ (List.mem_singleton_self _)⟩

theorem triple_extractTarball {path : Text} (there : path ∈ paths) (targetDir : Text) :
    Triple (Holds paths) (extractTarball w.loggingTransfers path targetDir)
      (fun _ => Holds paths) Thrown := by
  have started : Triple (Holds paths)
      (record (.extracted path) : EStateM Failure (σ × List Transfer) PUnit)
      (fun _ => Holds paths) Thrown := by
    intro s holds
    exact ⟨.extracted (holds.2 path there) holds.1,
      fun other member => List.mem_append_left _ (holds.2 other member)⟩
  rw [extractTarball]
  apply Triple.bind (Q := fun _ => Holds paths)
  · exact started.bind fun _ => triple_lift _
  · exact fun _ => Triple.pure fun _ holds => holds

/-- Only what has been downloaded is extracted. -/
theorem triple_finishPackage {installDir packageName version : Text} {downloaded : Bool}
    (there : downloaded = true →
      tarballPath (tempDir installDir packageName) packageName version ∈ paths) :
    Triple (Holds paths)
      (finishPackage w.loggingTransfers installDir packageName version downloaded)
      (fun _ => Holds paths) Thrown := by
  rw [finishPackage]
  cases downloaded with
  | false =>
    apply (triple_lift _).bind
    exact fun _ => Triple.pure fun _ holds => holds
  | true =>
    apply (triple_extractTarball (there rfl) _).bind
    intro _
    apply (triple_lift _).bind
    exact fun _ => Triple.pure fun _ holds => holds

theorem triple_installPackage (packageName version : Text) (options : InstallOptions) :
    Triple (Holds paths) (installPackage w.loggingTransfers packageName version options)
      (fun _ => Holds paths) Thrown := by
  rw [installPackage]
  apply (triple_resolve packageName version options.registry).bind
  intro resolved
  split
  · exact Triple.pure fun _ holds => holds
  · apply (triple_lift _).bind
    intro _
    apply (triple_lift _).bind
    intro _
    apply ((triple_downloadPackage packageName resolved (tempDir options.installDir packageName)
      options.registry).weaken (fun _ holds => holds) (fun _ _ holds => holds)
      fun _ _ holds => holds.1).bind
    intro downloaded
    apply (triple_finishPackage _).weaken (fun _ holds => holds) _ fun _ _ holds => holds
    · rintro rfl
      simp
    · exact fun _ _ holds => holds.mono (List.subset_append_left _ _)

end Calls

section Loops

/-- The download of an attempt has returned true. -/
def succeeded : Except Failure Bool → Bool
  | .ok ok => ok
  | .error _ => false

theorem triple_startDownload {registry : Text} (done : List DownloadSpec) (s : DownloadSpec)
    (outcomes : List (Except Failure Bool)) :
    Triple (fun state => done.length = outcomes.length ∧
        Holds (paths ++ writtenBy done (outcomes.map succeeded)) state)
      (startDownload w.loggingTransfers registry outcomes s)
      (fun outcomes' state => (done ++ [s]).length = outcomes'.length ∧
        Holds (paths ++ writtenBy (done ++ [s]) (outcomes'.map succeeded)) state) Thrown := by
  apply Triple.assuming
  intro lengths
  rw [startDownload]
  apply (triple_downloadPackage s.packageName s.version s.targetDir registry).attempt.bind
  intro outcome
  apply Triple.pure
  intro state holds
  refine ⟨by simp [lengths], ?_⟩
  rw [List.map_append, writtenBy_append (by rw [List.length_map, lengths]), ← List.append_assoc]
  cases outcome with
  | error e => exact holds.mono (by simp [writtenBy, succeeded])
  | ok ok => cases ok <;> exact holds

/-- The futures are asked for what they have, one after the other. -/
theorem triple_getResults (results : List Bool) (outcomes : List (Except Failure Bool)) :
    Triple (Holds paths)
      (outcomes.foldlM getResult results : EStateM Failure (σ × List Transfer) (List Bool))
      (fun results' state => results' = results ++ outcomes.map succeeded ∧ Holds paths state)
      Thrown := by
  have turn (done : List (Except Failure Bool)) (outcome : Except Failure Bool)
      (acc : List Bool) : Triple
        (fun state => acc = results ++ done.map succeeded ∧ Holds paths state)
        (getResult acc outcome : EStateM Failure (σ × List Transfer) (List Bool))
        (fun acc' state => acc' = results ++ (done ++ [outcome]).map succeeded ∧
          Holds paths state) Thrown := by
    apply Triple.assuming
    rintro rfl
    cases outcome with
    | ok ok => exact Triple.pure fun _ holds => ⟨by simp [succeeded], holds⟩
    | error e => exact Triple.throw fun _ holds => holds.1
  apply (Triple.foldlM (fun done outcome _ => turn done outcome) results).weaken _
    (fun _ _ holds => holds) fun _ _ holds => holds
  exact fun _ holds => ⟨(List.append_nil results).symm, holds⟩

theorem triple_downloadBatch {registry : Text} (results : List Bool) (batch : List DownloadSpec) :
    Triple (Holds paths) (downloadBatch w.loggingTransfers registry results batch)
      (fun results' state => ∃ oks, results' = results ++ oks ∧ batch.length = oks.length ∧
        Holds (paths ++ writtenBy batch oks) state) Thrown := by
  rw [downloadBatch]
  have started : Triple (Holds paths) (batch.foldlM (startDownload w.loggingTransfers registry) [])
      (fun outcomes state => batch.length = outcomes.length ∧
        Holds (paths ++ writtenBy batch (outcomes.map succeeded)) state) Thrown := by
    apply (Triple.foldlM (fun done s _ => triple_startDownload done s) []).weaken _
      (fun _ _ holds => holds) fun _ _ holds => holds
    exact fun state holds => ⟨rfl, holds.mono (by simp [writtenBy])⟩
  apply started.bind
  intro outcomes
  apply Triple.assuming
  intro lengths
  apply (triple_getResults results outcomes).weaken (fun _ holds => holds) _ fun _ _ holds => holds
  rintro results' state ⟨rfl, holds⟩
  exact ⟨outcomes.map succeeded, rfl, by rw [List.length_map, lengths], holds⟩

/-- What the downloads are reported to have written has been written. -/
theorem triple_downloadPackages (specs : List DownloadSpec) (registry : Text)
    (maxConcurrency : ℕ) :
    Triple (Holds []) (downloadPackages w.loggingTransfers specs registry maxConcurrency)
      (fun results => Holds (writtenBy specs results)) Thrown := by
  rw [downloadPackages]
  have positive : 0 < if maxConcurrency = 0 then 1 else maxConcurrency := by
    split <;> omega
  generalize (if maxConcurrency = 0 then 1 else maxConcurrency) = size at positive ⊢
  have turn (done : List (List DownloadSpec)) (batch : List DownloadSpec) (results : List Bool) :
      Triple (fun state => done.flatten.length = results.length ∧
          Holds (writtenBy done.flatten results) state)
        (downloadBatch w.loggingTransfers registry results batch)
        (fun results' state => (done ++ [batch]).flatten.length = results'.length ∧
          Holds (writtenBy (done ++ [batch]).flatten results') state) Thrown := by
    apply Triple.assuming
    intro lengths
    apply (triple_downloadBatch results batch).weaken (fun _ holds => holds) _
      fun _ _ holds => holds
    rintro results' state ⟨oks, rfl, same, holds⟩
    rw [List.flatten_append, List.flatten_singleton, writtenBy_append lengths]
    exact ⟨by simp [lengths, same], holds⟩
  have ran := Triple.foldlM (l := batches size specs.length specs)
    (fun done batch _ => turn done batch) []
  rw [flatten_batches positive specs.length.le_refl] at ran
  apply ran.weaken _ (fun _ _ holds => holds.2) fun _ _ holds => holds
  exact fun _ holds => ⟨rfl, holds⟩

/-- The specs are those of the installer. -/
def Directed (options : InstallOptions) (specs : List DownloadSpec) : Prop :=
  ∀ s ∈ specs, s.targetDir = tempDir options.installDir s.packageName

theorem triple_resolveAll (packages : List (Text × Text)) :
    Triple (Holds []) (resolveAll w.loggingTransfers options packages)
      (fun specs state => Directed options specs ∧ Holds [] state) Thrown := by
  have turn (pair : Text × Text) (specs : List DownloadSpec) :
      Triple (fun state => Directed options specs ∧ Holds [] state)
        (addSpec w.loggingTransfers options specs pair)
        (fun specs' state => Directed options specs' ∧ Holds [] state) Thrown := by
    apply Triple.assuming
    intro directed
    rw [addSpec]
    apply (triple_resolve pair.1 pair.2 options.registry).bind
    intro resolved
    split
    · exact Triple.pure fun _ holds => ⟨directed, holds⟩
    · apply (triple_lift _).bind
      intro _
      apply (triple_lift _).bind
      intro _
      apply Triple.pure
      intro _ holds
      refine ⟨?_, holds⟩
      rw [Directed, List.forall_mem_append, List.forall_mem_singleton]
      exact ⟨directed, rfl⟩
  apply (Triple.foldlM (fun _ pair _ => turn pair) []).weaken _ (fun _ _ holds => holds)
    fun _ _ holds => holds
  exact fun _ holds => ⟨by simp [Directed], holds⟩

theorem triple_finishAll {downloads : List (DownloadSpec × Bool)}
    (there : ∀ download ∈ downloads, download.2 = true →
      tarballPath (tempDir options.installDir download.1.packageName) download.1.packageName
        download.1.version ∈ paths) :
    Triple (Holds paths) (finishAll w.loggingTransfers options downloads)
      (fun _ => Holds paths) Thrown := by
  rw [finishAll]
  apply Triple.foldlM (I := fun _ _ => Holds paths)
  intro _ download member success
  apply (triple_finishPackage (there download member)).bind
  exact fun _ => Triple.pure fun _ holds => holds

theorem triple_installEach (packages : List (Text × Text)) :
    Triple (Holds paths) (installEach w.loggingTransfers options packages)
      (fun _ => Holds paths) Thrown := by
  rw [installEach]
  apply Triple.foldlM (I := fun _ _ => Holds paths)
  intro _ pair _ success
  apply (triple_installPackage pair.1 pair.2 options).bind
  exact fun _ => Triple.pure fun _ holds => holds

theorem mem_writtenBy {results : List Bool} (directed : Directed options specs)
    {download : DownloadSpec × Bool} (member : download ∈ specs.zip results)
    (ok : download.2 = true) :
    tarballPath (tempDir options.installDir download.1.packageName) download.1.packageName
      download.1.version ∈ writtenBy specs results := by
  rw [← directed download.1 (List.of_mem_zip member).1]
  apply List.mem_filterMap.2
  exact ⟨download, member, by rw [if_pos ok]; rfl⟩

theorem triple_installPackages (packages : List (Text × Text)) (options : InstallOptions) :
    Triple (Holds []) (installPackages w.loggingTransfers packages options)
      (fun _ s => Justified s.2) Thrown := by
  rw [installPackages]
  split
  · exact Triple.pure fun _ holds => holds.1
  split
  · apply (triple_installEach packages).weaken (fun _ holds => holds) (fun _ _ holds => holds.1)
      fun _ _ holds => holds
  · apply (triple_resolveAll packages).bind
    intro specs
    apply Triple.assuming
    intro directed
    split
    · exact Triple.pure fun _ holds => holds.1
    · apply (triple_downloadPackages specs options.registry options.parallelDownloads).bind
      intro downloadOk
      apply (triple_finishAll fun download member => mem_writtenBy directed member).weaken
        (fun _ holds => holds) (fun _ _ holds => holds.1) fun _ _ holds => holds

/-- In every world, from every state and also where an exception ends the run, both installers
extract only paths to which a download has been written. -/
theorem justified_installers (w : World σ) (options : InstallOptions) (pair : Text × Text)
    (packages : List (Text × Text)) (s : σ) :
    Justified (final (installPackage w.loggingTransfers pair.1 pair.2 options (s, []))).2 ∧
      Justified (final (installPackages w.loggingTransfers packages options (s, []))).2 := by
  have start : Holds [] (s, []) := ⟨.nil, by simp⟩
  constructor
  · have ran := triple_installPackage (w := w) pair.1 pair.2 options (s, []) start
    cases result : installPackage w.loggingTransfers pair.1 pair.2 options (s, []) with
    | ok installed s' =>
      rw [result] at ran
      exact ran.1
    | error e s' =>
      rw [result] at ran
      exact ran
  · have ran := triple_installPackages (w := w) packages options (s, []) start
    cases result : installPackages w.loggingTransfers packages options (s, []) with
    | ok installed s' =>
      rw [result] at ran
      exact ran
    | error e s' =>
      rw [result] at ran
      exact ran

end Loops

end PackageInstaller

end ProtoJS.Npm
