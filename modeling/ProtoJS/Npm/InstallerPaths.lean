import ProtoJS.Npm.InstallerRuns
import ProtoJS.Strings.LexicalPath

/-! # Where the installer creates and removes

The directory of a package is the install directory joined with the name of the package, whatever
this name is; the tarball lies in a directory below, under a name that begins with the name of the
package once more. So two paths have to come back into the install directory as far as they climb
out of it.
-/

namespace ProtoJS.Npm

open Strings Effects

/-- The world with a log of the paths that are created or removed. -/
def World.loggingPaths {σ : Type} (w : World σ) : World (σ × List Text) where
  fetchPackage := w.fetchPackage
  pathExists path := lift (w.pathExists path)
  createDirectories path := do
    record path
    lift (w.createDirectories path)
  removeAll path := do
    record path
    lift (w.removeAll path)
  httpDownload url targetPath := do
    record targetPath
    lift (w.httpDownload url targetPath)
  system tarballPath targetDir := lift (w.system tarballPath targetDir)
  readFile path := lift (w.readFile path)

namespace PackageInstaller

open NPMRegistry

variable {σ : Type} {w : World σ} {fetchPackage : Text → Text → PackageMetadata PackageVersion}
  {options : InstallOptions} {packages : List (Text × Text)} {pair : Text × Text}
  {installDir packageName version targetDir registry : Text}

/-- Whatever the world does, only paths strictly below the install directory are created or
removed. -/
def Contained (fetchPackage : Text → Text → PackageMetadata PackageVersion) (installDir : Text)
    (action : ∀ {σ : Type}, World σ → EStateM Failure σ Bool) : Prop :=
  ∀ (σ : Type) (w : World σ), w.fetchPackage = fetchPackage →
    Logs (StrictlyBelow installDir) (action w.loggingPaths)

/-- The package gets no directory, or one in the install directory. -/
def DirEnters (fetchPackage : Text → Text → PackageMetadata PackageVersion)
    (options : InstallOptions) (pair : Text × Text) : Prop :=
  ∀ version, resolveVersion fetchPackage pair.1 pair.2 options.registry = .ok version →
    version ≠ [] → Enters options.installDir pair.1

/-- The package has no tarball, or it is put into the install directory. -/
def TarballEnters (fetchPackage : Text → Text → PackageMetadata PackageVersion)
    (options : InstallOptions) (pair : Text × Text) : Prop :=
  ∀ version, resolveVersion fetchPackage pair.1 pair.2 options.registry = .ok version →
    version ≠ [] → tarballOf (fetchPackage pair.1 options.registry) version ≠ none →
      Enters options.installDir (tarballPath (pair.1 ++ "/.tmp".toList) pair.1 version)

/-- Resolving the version does not throw. -/
def resolves (fetchPackage : Text → Text → PackageMetadata PackageVersion)
    (options : InstallOptions) (pair : Text × Text) : Bool :=
  (resolveVersion fetchPackage pair.1 pair.2 options.registry).isOk

/-- The packages that are come to before an exception. -/
def reached (fetchPackage : Text → Text → PackageMetadata PackageVersion)
    (options : InstallOptions) (packages : List (Text × Text)) : List (Text × Text) :=
  packages.takeWhile (resolves fetchPackage options)

/-- What `installPackages` comes to enters the install directory. On the parallel path nothing is
downloaded before every version is resolved. -/
def AllEnter (fetchPackage : Text → Text → PackageMetadata PackageVersion)
    (options : InstallOptions) (packages : List (Text × Text)) : Prop :=
  (∀ pair ∈ reached fetchPackage options packages, DirEnters fetchPackage options pair) ∧
    (options.parallelDownloads = 0 ∨ reached fetchPackage options packages = packages →
      ∀ pair ∈ reached fetchPackage options packages, TarballEnters fetchPackage options pair)

section Satisfy

/-- The directories that the package gets, if it gets any, satisfy the predicate. -/
def DirsSatisfy (P : Text → Prop)
    (fetchPackage : Text → Text → PackageMetadata PackageVersion) (options : InstallOptions)
    (pair : Text × Text) : Prop :=
  ∀ version, resolveVersion fetchPackage pair.1 pair.2 options.registry = .ok version →
    version ≠ [] → P (packageDir options.installDir pair.1) ∧ P (tempDir options.installDir pair.1)

/-- The tarball of the package, if it has one, does. -/
def TarballSatisfies (P : Text → Prop)
    (fetchPackage : Text → Text → PackageMetadata PackageVersion) (options : InstallOptions)
    (pair : Text × Text) : Prop :=
  ∀ version, resolveVersion fetchPackage pair.1 pair.2 options.registry = .ok version →
    version ≠ [] → tarballOf (fetchPackage pair.1 options.registry) version ≠ none →
      P (tarballPath (tempDir options.installDir pair.1) pair.1 version)

/-- What is to be downloaded for one package: nothing if it has no version. -/
def specsFor (fetchPackage : Text → Text → PackageMetadata PackageVersion)
    (options : InstallOptions) (pair : Text × Text) : List DownloadSpec :=
  match resolveVersion fetchPackage pair.1 pair.2 options.registry with
  | .ok version =>
    if version = [] then [] else [⟨pair.1, version, tempDir options.installDir pair.1⟩]
  | .error _ => []

theorem mem_specsFor {s : DownloadSpec} : s ∈ specsFor fetchPackage options pair ↔
    ∃ version, resolveVersion fetchPackage pair.1 pair.2 options.registry = .ok version ∧
      version ≠ [] ∧ s = ⟨pair.1, version, tempDir options.installDir pair.1⟩ := by
  rw [specsFor]
  cases resolved : resolveVersion fetchPackage pair.1 pair.2 options.registry with
  | error e => simp
  | ok version =>
    rcases eq_or_ne version [] with empty | present
    · simp [empty]
    · simp [present]

end Satisfy

section Paths

theorem strictlyBelow_packageDir_iff :
    StrictlyBelow installDir (packageDir installDir packageName) ↔ Enters installDir packageName :=
  strictlyBelow_join_iff

theorem strictlyBelow_tempDir (enters : Enters installDir packageName) :
    StrictlyBelow installDir (tempDir installDir packageName) := by
  have below := strictlyBelow_packageDir_iff.mpr enters
  have present : packageDir installDir packageName ≠ [] := by simp [packageDir]
  have plain : reduce ".tmp".toList = ⟨0, [".tmp".toList]⟩ := by decide
  exact below.join present plain

theorem strictlyBelow_tarballPath_iff :
    StrictlyBelow installDir (tarballPath (tempDir installDir packageName) packageName version) ↔
      Enters installDir (tarballPath (packageName ++ "/.tmp".toList) packageName version) := by
  have joined : tarballPath (tempDir installDir packageName) packageName version =
      installDir ++ '/' :: tarballPath (packageName ++ "/.tmp".toList) packageName version := by
    simp [tarballPath, tempDir, packageDir]
  rw [joined]
  exact strictlyBelow_join_iff

end Paths

section Logged

variable {P : Text → Prop}

theorem logs_createDirectories (w : World σ) (allowed : P targetDir) :
    Logs P (w.loggingPaths.createDirectories targetDir) :=
  (Logs.record allowed).bind fun _ => Logs.lift _

theorem logs_removeAll (w : World σ) (allowed : P targetDir) :
    Logs P (w.loggingPaths.removeAll targetDir) :=
  (Logs.record allowed).bind fun _ => Logs.lift _

theorem logs_downloadPackage (w : World σ)
    (allowed : tarballOf (w.fetchPackage packageName registry) version ≠ none →
      P targetDir ∧ P (tarballPath targetDir packageName version)) :
    Logs P (downloadPackage w.loggingPaths packageName version targetDir registry) := by
  rw [downloadPackage_eq]
  cases has : tarballOf (w.fetchPackage packageName registry) version with
  | none =>
    simp only [World.loggingPaths, has]
    exact Logs.pure false
  | some url =>
    obtain ⟨dir, tarball⟩ := allowed (has ▸ Option.some_ne_none url)
    simp only [World.loggingPaths, has]
    apply (logs_createDirectories w dir).bind
    intro _
    exact (Logs.record tarball).bind fun _ => Logs.lift _

theorem logs_finishPackage (w : World σ) (allowed : P (tempDir installDir packageName))
    (downloaded : Bool) :
    Logs P (finishPackage w.loggingPaths installDir packageName version downloaded) := by
  have removed := logs_removeAll w allowed
  cases downloaded with
  | false => exact removed.bind fun _ => Logs.pure false
  | true =>
    refine Logs.bind ?_ fun extracted => removed.bind fun _ => Logs.pure extracted
    exact (Logs.lift _).bind fun result => Logs.pure _

/-- Resolving logs nothing, and nothing more is done where it throws. -/
theorem logs_resolve_bind (w : World σ) {α : Type} {next : Text → EStateM Failure (σ × List Text) α}
    (unversioned : Logs P (next []))
    (versioned : ∀ version, resolveVersion w.fetchPackage packageName range registry = .ok version →
      version ≠ [] → Logs P (next version)) :
    Logs P (resolve w.loggingPaths packageName range registry >>= next) := by
  cases resolved : resolveVersion w.fetchPackage packageName range registry with
  | error e =>
    rw [resolve_throws (w := w.loggingPaths) (by rw [World.loggingPaths, resolved]; rfl)]
    exact Logs.throw _
  | ok version =>
    rw [resolve_eq (w := w.loggingPaths) resolved, pure_bind]
    rcases eq_or_ne version [] with rfl | present
    · exact unversioned
    · exact versioned version resolved present

theorem logs_installPackage (w : World σ) (dirs : DirsSatisfy P w.fetchPackage options pair)
    (tarball : TarballSatisfies P w.fetchPackage options pair) :
    Logs P (installPackage w.loggingPaths pair.1 pair.2 options) := by
  rw [installPackage]
  apply logs_resolve_bind w
  · exact Logs.pure false
  · intro version resolved present
    obtain ⟨dir, temp⟩ := dirs version resolved present
    have tarballs := tarball version resolved present
    rw [if_neg present]
    refine (logs_createDirectories w dir).bind fun _ => ?_
    refine (logs_createDirectories w temp).bind fun _ => ?_
    refine (logs_downloadPackage w fun has => ⟨temp, tarballs has⟩).bind fun downloaded => ?_
    exact logs_finishPackage w temp downloaded

theorem logs_installEach (w : World σ)
    (dirs : ∀ pair ∈ reached w.fetchPackage options packages,
      DirsSatisfy P w.fetchPackage options pair)
    (tarballs : ∀ pair ∈ reached w.fetchPackage options packages,
      TarballSatisfies P w.fetchPackage options pair) :
    Logs P (installEach w.loggingPaths options packages) := by
  apply Logs.foldlM_until
  · intro pair member success
    refine (logs_installPackage w (dirs pair member) (tarballs pair member)).bind fun _ => ?_
    exact Logs.pure _
  · intro pair fails success
    refine ⟨.outOfRange, ?_⟩
    rw [installPackage, resolve_throws (w := w.loggingPaths) fails]
    rfl

theorem logs_addSpec (w : World σ) (dirs : DirsSatisfy P w.fetchPackage options pair)
    (specs : List DownloadSpec) : Logs P (addSpec w.loggingPaths options specs pair) := by
  rw [addSpec]
  apply logs_resolve_bind w
  · exact Logs.pure specs
  · intro version resolved present
    obtain ⟨dir, temp⟩ := dirs version resolved present
    rw [if_neg present]
    refine (logs_createDirectories w dir).bind fun _ => ?_
    exact (logs_createDirectories w temp).bind fun _ => Logs.pure _

theorem logs_resolveAll (w : World σ)
    (dirs : ∀ pair ∈ reached w.fetchPackage options packages,
      DirsSatisfy P w.fetchPackage options pair) :
    Logs P (resolveAll w.loggingPaths options packages) := by
  apply Logs.foldlM_until
  · intro pair member specs
    exact logs_addSpec w (dirs pair member) specs
  · intro pair fails specs
    refine ⟨.outOfRange, ?_⟩
    rw [addSpec, resolve_throws (w := w.loggingPaths) fails]
    rfl

/-- Every version was resolved once the loop over them returns. -/
theorem ensures_resolveAll (w : World σ) (options : InstallOptions)
    (packages : List (Text × Text)) :
    Ensures (fun specs => (∀ pair ∈ packages, resolves w.fetchPackage options pair = true) ∧
      specs = packages.flatMap (specsFor w.fetchPackage options))
      (resolveAll w options packages) := by
  refine Ensures.foldlM (fun done specs =>
    (∀ pair ∈ done, resolves w.fetchPackage options pair = true) ∧
      specs = done.flatMap (specsFor w.fetchPackage options)) ?_ ⟨by simp, rfl⟩ packages
  rintro done pair specs ⟨resolved, rfl⟩
  rw [addSpec]
  cases now : resolveVersion w.fetchPackage pair.1 pair.2 options.registry with
  | error e =>
    rw [resolve_throws (by rw [now]; rfl)]
    exact Ensures.throw _
  | ok version =>
    have all : ∀ other ∈ done ++ [pair], resolves w.fetchPackage options other = true := by
      intro other member
      rcases List.mem_append.mp member with earlier | last
      · exact resolved other earlier
      · rw [List.mem_singleton.mp last, resolves, now]
        rfl
    rw [resolve_eq now, pure_bind, List.flatMap_append, List.flatMap_singleton]
    rcases eq_or_ne version [] with empty | present
    · rw [if_pos empty]
      exact Ensures.pure ⟨all, by simp [specsFor, now, empty]⟩
    · rw [if_neg present]
      apply Ensures.bind
      intro _
      refine Ensures.bind fun _ => Ensures.pure ⟨all, ?_⟩
      simp [specsFor, now, present]

theorem logs_downloadPackages (w : World σ) {specs : List DownloadSpec}
    (allowed : ∀ s ∈ specs, tarballOf (w.fetchPackage s.packageName registry) s.version ≠ none →
      P s.targetDir ∧ P (tarballPath s.targetDir s.packageName s.version))
    (maxConcurrency : ℕ) :
    Logs P (downloadPackages w.loggingPaths specs registry maxConcurrency) := by
  rw [downloadPackages]
  have positive : 0 < if maxConcurrency = 0 then 1 else maxConcurrency := by
    split <;> omega
  generalize (if maxConcurrency = 0 then 1 else maxConcurrency) = size at positive ⊢
  have whole := flatten_batches positive specs.length.le_refl
  refine Logs.foldlM (fun batch member results => ?_) []
  have started : Logs P (batch.foldlM (startDownload w.loggingPaths registry) []) := by
    refine Logs.foldlM (fun s inside outcomes => ?_) []
    have listed : s ∈ specs := whole ▸ List.mem_flatten_of_mem member inside
    have downloaded := logs_downloadPackage w (allowed s listed)
    exact downloaded.attempt.bind fun _ => Logs.pure _
  refine started.bind fun outcomes => Logs.foldlM (fun outcome _ results => ?_) results
  cases outcome with
  | ok downloaded => exact Logs.pure _
  | error e => exact Logs.throw e

theorem logs_finishAll (w : World σ) {downloads : List (DownloadSpec × Bool)}
    (allowed : ∀ download ∈ downloads, P (tempDir options.installDir download.1.packageName)) :
    Logs P (finishAll w.loggingPaths options downloads) := by
  refine Logs.foldlM (fun download member success => ?_) true
  refine (logs_finishPackage w (allowed download member) download.2).bind fun _ => ?_
  exact Logs.pure _

theorem logs_installPackages (w : World σ)
    (dirs : ∀ pair ∈ reached w.fetchPackage options packages,
      DirsSatisfy P w.fetchPackage options pair)
    (tarballs : options.parallelDownloads = 0 ∨ reached w.fetchPackage options packages = packages →
      ∀ pair ∈ reached w.fetchPackage options packages,
        TarballSatisfies P w.fetchPackage options pair) :
    Logs P (installPackages w.loggingPaths packages options) := by
  rw [installPackages]
  rcases eq_or_ne packages [] with nothing | nonempty
  · rw [if_pos nothing]
    exact Logs.pure true
  rw [if_neg nonempty]
  rcases eq_or_ne options.parallelDownloads 0 with sequential | parallel
  · rw [if_pos sequential]
    exact logs_installEach w dirs (tarballs (.inl sequential))
  rw [if_neg parallel]
  refine (logs_resolveAll w dirs).bind_ensures (ensures_resolveAll w.loggingPaths _ _) ?_
  rintro specs ⟨resolved, rfl⟩
  have everything : reached w.fetchPackage options packages = packages :=
    List.takeWhile_eq_self_iff.mpr resolved
  rw [everything] at dirs tarballs
  have listed : ∀ s ∈ packages.flatMap (specsFor w.fetchPackage options),
      P s.targetDir ∧ s.targetDir = tempDir options.installDir s.packageName ∧
        (tarballOf (w.fetchPackage s.packageName options.registry) s.version ≠ none →
          P (tarballPath s.targetDir s.packageName s.version)) := by
    intro s member
    obtain ⟨pair, inside, spec⟩ := List.mem_flatMap.mp member
    obtain ⟨version, resolved, present, rfl⟩ := mem_specsFor.mp spec
    exact ⟨(dirs pair inside _ resolved present).2, rfl,
      tarballs (.inr rfl) pair inside _ resolved present⟩
  split
  · exact Logs.pure false
  refine (logs_downloadPackages w (fun s member has =>
    ⟨(listed s member).1, (listed s member).2.2 has⟩) _).bind fun downloadOk => ?_
  apply logs_finishAll
  intro download member
  obtain ⟨allowed, temp, _⟩ := listed download.1 (List.of_mem_zip member).1
  exact temp ▸ allowed

end Logged

section Ready

/-- What a download creates. -/
def downloadPaths (metadata : PackageMetadata PackageVersion) (s : DownloadSpec) : List Text :=
  match tarballOf metadata s.version with
  | none => []
  | some _ => [s.targetDir, tarballPath s.targetDir s.packageName s.version]

/-- The directories that are created for what is to be downloaded. -/
def dirsOf (installDir : Text) (specs : List DownloadSpec) : List Text :=
  specs.flatMap fun s => [packageDir installDir s.packageName, s.targetDir]

variable (fetchPackage)

theorem createDirectories_ready (path : Text) :
    Returns ((ready fetchPackage).loggingPaths.createDirectories path) .unit [path] :=
  (Returns.record path).bind (Returns.lift (Always.pure _))

theorem removeAll_ready (path : Text) :
    Returns ((ready fetchPackage).loggingPaths.removeAll path) .unit [path] :=
  (Returns.record path).bind (Returns.lift (Always.pure _))

theorem httpDownload_ready (url path : Text) :
    Returns ((ready fetchPackage).loggingPaths.httpDownload url path) true [path] :=
  (Returns.record path).bind (Returns.lift (Always.pure true))

theorem downloadPackage_ready (s : DownloadSpec) (registry : Text) :
    Returns (downloadPackage (ready fetchPackage).loggingPaths s.packageName s.version s.targetDir
        registry) (tarballOf (fetchPackage s.packageName registry) s.version).isSome
      (downloadPaths (fetchPackage s.packageName registry) s) := by
  have created := createDirectories_ready fetchPackage s.targetDir
  rw [downloadPackage_eq, downloadPaths]
  simp only [World.loggingPaths, ready] at created ⊢
  cases tarballOf (fetchPackage s.packageName registry) s.version with
  | none => exact Returns.pure false
  | some url => exact created.bind (httpDownload_ready fetchPackage url _)

theorem finishPackage_ready (installDir packageName version : Text) (downloaded : Bool) :
    Returns (finishPackage (ready fetchPackage).loggingPaths installDir packageName version
      downloaded) downloaded [tempDir installDir packageName] := by
  have removed := removeAll_ready fetchPackage (tempDir installDir packageName)
  cases downloaded with
  | false => exact removed.bind (Returns.pure false)
  | true =>
    have extracted : Returns (extractTarball (ready fetchPackage).loggingPaths
        (tarballPath (tempDir installDir packageName) packageName version)
        (packageDir installDir packageName)) true [] :=
      (Returns.lift (Always.pure 0)).silently (Returns.pure true)
    exact extracted.silently (removed.bind (Returns.pure true))

/-- What is done for one package, if its version resolves. -/
theorem installPackage_ready (resolved :
    resolveVersion fetchPackage pair.1 pair.2 options.registry = .ok version) :
    ∃ installed events,
      Returns (installPackage (ready fetchPackage).loggingPaths pair.1 pair.2 options) installed
        events ∧
      (version ≠ [] → packageDir options.installDir pair.1 ∈ events ∧
        (tarballOf (fetchPackage pair.1 options.registry) version ≠ none →
          tarballPath (tempDir options.installDir pair.1) pair.1 version ∈ events)) := by
  rw [installPackage, resolve_eq (w := (ready fetchPackage).loggingPaths) resolved, pure_bind]
  rcases eq_or_ne version [] with empty | present
  · rw [if_pos empty]
    exact ⟨false, [], Returns.pure false, fun present => absurd empty present⟩
  · rw [if_neg present]
    have created := createDirectories_ready fetchPackage (packageDir options.installDir pair.1)
    have createdTemp := createDirectories_ready fetchPackage (tempDir options.installDir pair.1)
    have downloaded := downloadPackage_ready fetchPackage
      ⟨pair.1, version, tempDir options.installDir pair.1⟩ options.registry
    refine ⟨_, _, created.bind (createdTemp.bind (downloaded.bind
      (finishPackage_ready fetchPackage options.installDir pair.1 version _))), fun _ => ?_⟩
    refine ⟨by simp, fun has => ?_⟩
    obtain ⟨url, has⟩ := Option.ne_none_iff_exists'.mp has
    simp [downloadPaths, has]

theorem resolves_iff : resolves fetchPackage options pair = true ↔
    ∃ version, resolveVersion fetchPackage pair.1 pair.2 options.registry = .ok version := by
  rw [resolves]
  cases resolveVersion fetchPackage pair.1 pair.2 options.registry with
  | ok version => simp [Except.isOk, Except.toBool]
  | error e => simp [Except.isOk, Except.toBool]

theorem mem_reached (member : pair ∈ reached fetchPackage options packages) :
    ∃ version, resolveVersion fetchPackage pair.1 pair.2 options.registry = .ok version :=
  (resolves_iff fetchPackage).mp (List.mem_takeWhile_imp member)

/-- The loop of the sequential path comes to each package before an exception. -/
theorem installEach_records {path : Text}
    (member : pair ∈ reached fetchPackage options packages)
    (records : Records path
      (installPackage (ready fetchPackage).loggingPaths pair.1 pair.2 options)) :
    Records path (installEach (ready fetchPackage).loggingPaths options packages) := by
  have grows : ∀ pair : Text × Text, Logs (fun _ => True)
      (installPackage (ready fetchPackage).loggingPaths pair.1 pair.2 options) :=
    fun pair => logs_installPackage _ (fun _ _ _ => ⟨trivial, trivial⟩) fun _ _ _ _ => trivial
  refine Records.foldlM ?_ ?_ member ?_ true
  · intro pair inside success
    obtain ⟨version, resolved⟩ := mem_reached fetchPackage inside
    obtain ⟨installed, events, returns, _⟩ := installPackage_ready fetchPackage resolved
    exact ⟨_, _, returns.bind (Returns.pure _)⟩
  · intro success pair
    exact (grows pair).bind fun _ => Logs.pure _
  · intro success
    exact records.bind fun _ => Logs.pure _

theorem addSpec_ready (resolved : resolves fetchPackage options pair = true)
    (specs : List DownloadSpec) :
    Returns (addSpec (ready fetchPackage).loggingPaths options specs pair)
      (specs ++ specsFor fetchPackage options pair)
      (dirsOf options.installDir (specsFor fetchPackage options pair)) := by
  obtain ⟨version, resolved⟩ := (resolves_iff fetchPackage).mp resolved
  rw [addSpec, resolve_eq (w := (ready fetchPackage).loggingPaths) resolved, pure_bind, specsFor,
    resolved]
  dsimp only
  rcases eq_or_ne version [] with empty | present
  · rw [if_pos empty, if_pos empty, List.append_nil]
    exact Returns.pure specs
  · rw [if_neg present, if_neg present]
    have created := createDirectories_ready fetchPackage (packageDir options.installDir pair.1)
    have createdTemp := createDirectories_ready fetchPackage (tempDir options.installDir pair.1)
    exact created.bind (createdTemp.bind (Returns.pure _))

/-- What follows the first loop of the parallel path. -/
theorem logs_rest (specs : List DownloadSpec) : Logs (fun _ => True) (do
    if specs = [] then return false
    let downloadOk ← downloadPackages (ready fetchPackage).loggingPaths specs options.registry
      options.parallelDownloads
    finishAll (ready fetchPackage).loggingPaths options (specs.zip downloadOk)) := by
  split
  · exact Logs.pure false
  · refine (logs_downloadPackages _ (fun _ _ _ => ⟨trivial, trivial⟩) _).bind fun _ => ?_
    exact logs_finishAll _ fun _ _ => trivial

theorem installPackages_records_dir {path : Text}
    (parallel : options.parallelDownloads ≠ 0)
    (member : pair ∈ reached fetchPackage options packages)
    (dir : path ∈ dirsOf options.installDir (specsFor fetchPackage options pair)) :
    Records path (installPackages (ready fetchPackage).loggingPaths packages options) := by
  have nonempty : packages ≠ [] := by
    rintro rfl
    cases member
  rw [installPackages, if_neg nonempty, if_neg parallel]
  refine Records.bind ?_ (logs_rest fetchPackage)
  refine Records.foldlM ?_ ?_ member ?_ []
  · intro pair inside specs
    exact ⟨_, _, addSpec_ready fetchPackage (List.mem_takeWhile_imp inside) specs⟩
  · intro specs pair
    exact logs_addSpec _ (fun _ _ _ => ⟨trivial, trivial⟩) specs
  · intro specs
    exact (addSpec_ready fetchPackage (List.mem_takeWhile_imp member) specs).records dir

/-- Once every version is resolved, each tarball there is is downloaded. -/
theorem installPackages_records_tarball (parallel : options.parallelDownloads ≠ 0)
    (all : reached fetchPackage options packages = packages) (member : pair ∈ packages)
    (resolved : resolveVersion fetchPackage pair.1 pair.2 options.registry = .ok version)
    (present : version ≠ [])
    (has : tarballOf (fetchPackage pair.1 options.registry) version ≠ none) :
    Records (tarballPath (tempDir options.installDir pair.1) pair.1 version)
      (installPackages (ready fetchPackage).loggingPaths packages options) := by
  have nonempty : packages ≠ [] := List.ne_nil_of_mem member
  rw [installPackages, if_neg nonempty, if_neg parallel]
  have first := Returns.foldlM (l := packages) (fun pair inside specs =>
    addSpec_ready fetchPackage (List.takeWhile_eq_self_iff.mp all pair inside) specs) []
  rw [List.foldl_append_eq_append, List.nil_append, ← List.flatMap_def] at first
  refine Records.after first ?_
  have spec : ⟨pair.1, version, tempDir options.installDir pair.1⟩ ∈
      packages.flatMap (specsFor fetchPackage options) :=
    List.mem_flatMap.mpr ⟨pair, member, mem_specsFor.mpr ⟨version, resolved, present, rfl⟩⟩
  rw [if_neg (List.ne_nil_of_mem spec)]
  generalize packages.flatMap (specsFor fetchPackage options) = specs at spec ⊢
  have downloaded : ∀ s ∈ specs, Returns _ _ _ :=
    fun s _ => downloadPackage_ready fetchPackage s options.registry
  have downloads := downloadPackages_returns downloaded options.parallelDownloads
  refine (downloads.records (List.mem_flatMap.mpr ⟨_, spec, ?_⟩)).bind fun _ => ?_
  · obtain ⟨url, has⟩ := Option.ne_none_iff_exists'.mp has
    simp [downloadPaths, has]
  · exact logs_finishAll _ fun _ _ => trivial

end Ready

section Containment

variable (fetchPackage : Text → Text → PackageMetadata PackageVersion) (options : InstallOptions)

theorem contained_uninstallPackage_iff (installDir packageName : Text) :
    Contained fetchPackage installDir (fun w => uninstallPackage w packageName installDir) ↔
      Enters installDir packageName := by
  rw [← strictlyBelow_packageDir_iff]
  constructor
  · intro contained
    have removed : Returns
        (uninstallPackage (ready fetchPackage).loggingPaths packageName installDir) true
        [packageDir installDir packageName] :=
      (Returns.lift (Always.pure true)).silently
        ((removeAll_ready fetchPackage _).bind (Returns.pure true))
    exact (contained Unit (ready fetchPackage) rfl).of_records
      (removed.records (List.mem_singleton_self _)) ()
  · rintro below σ w rfl
    refine (Logs.lift _).bind fun there => ?_
    cases there with
    | false => exact Logs.pure false
    | true => exact (logs_removeAll w below).bind fun _ => Logs.pure true

variable {fetchPackage options}

theorem dirsSatisfy_of_enters (enters : DirEnters fetchPackage options pair) :
    DirsSatisfy (StrictlyBelow options.installDir) fetchPackage options pair := by
  intro version resolved present
  have name := enters version resolved present
  exact ⟨strictlyBelow_packageDir_iff.mpr name, strictlyBelow_tempDir name⟩

theorem tarballSatisfies_of_enters (enters : TarballEnters fetchPackage options pair) :
    TarballSatisfies (StrictlyBelow options.installDir) fetchPackage options pair :=
  fun version resolved present has =>
    strictlyBelow_tarballPath_iff.mpr (enters version resolved present has)

variable (fetchPackage options)

theorem contained_installPackage_iff (pair : Text × Text) :
    Contained fetchPackage options.installDir (fun w => installPackage w pair.1 pair.2 options) ↔
      DirEnters fetchPackage options pair ∧ TarballEnters fetchPackage options pair := by
  constructor
  · intro contained
    have logs := contained Unit (ready fetchPackage) rfl
    constructor
    · intro version resolved present
      obtain ⟨_, _, returns, recorded⟩ := installPackage_ready fetchPackage resolved
      exact strictlyBelow_packageDir_iff.mp
        (logs.of_records (returns.records (recorded present).1) ())
    · intro version resolved present has
      obtain ⟨_, _, returns, recorded⟩ := installPackage_ready fetchPackage resolved
      exact strictlyBelow_tarballPath_iff.mp
        (logs.of_records (returns.records ((recorded present).2 has)) ())
  · rintro ⟨dir, tarball⟩ σ w rfl
    exact logs_installPackage w (dirsSatisfy_of_enters dir) (tarballSatisfies_of_enters tarball)

variable {fetchPackage options}

/-- Every package that the sequential path comes to is contained. -/
theorem allEnter_of_sequential (sequential : options.parallelDownloads = 0)
    (logs : Logs (StrictlyBelow options.installDir)
      (installPackages (ready fetchPackage).loggingPaths packages options)) :
    AllEnter fetchPackage options packages := by
  have below : ∀ pair ∈ reached fetchPackage options packages, ∀ path, Records path
      (installPackage (ready fetchPackage).loggingPaths pair.1 pair.2 options) →
        StrictlyBelow options.installDir path := by
    intro pair member path records
    have nonempty : packages ≠ [] := by
      rintro rfl
      cases member
    rw [installPackages, if_neg nonempty, if_pos sequential] at logs
    exact logs.of_records (installEach_records fetchPackage member records) ()
  constructor
  · intro pair member version resolved present
    obtain ⟨_, _, returns, recorded⟩ := installPackage_ready fetchPackage resolved
    apply strictlyBelow_packageDir_iff.mp
    exact below pair member _ (returns.records (recorded present).1)
  · intro _ pair member version resolved present has
    obtain ⟨_, _, returns, recorded⟩ := installPackage_ready fetchPackage resolved
    apply strictlyBelow_tarballPath_iff.mp
    exact below pair member _ (returns.records ((recorded present).2 has))

theorem allEnter_of_parallel (parallel : options.parallelDownloads ≠ 0)
    (logs : Logs (StrictlyBelow options.installDir)
      (installPackages (ready fetchPackage).loggingPaths packages options)) :
    AllEnter fetchPackage options packages := by
  constructor
  · intro pair member version resolved present
    have dir : packageDir options.installDir pair.1 ∈
        dirsOf options.installDir (specsFor fetchPackage options pair) := by
      simp [dirsOf, specsFor, resolved, present]
    apply strictlyBelow_packageDir_iff.mp
    exact logs.of_records (installPackages_records_dir fetchPackage parallel member dir) ()
  · intro turns pair member version resolved present has
    have all := turns.resolve_left parallel
    rw [all] at member
    have downloaded :=
      installPackages_records_tarball fetchPackage parallel all member resolved present has
    exact strictlyBelow_tarballPath_iff.mp (logs.of_records downloaded ())

variable (fetchPackage options)

theorem contained_installPackages_iff (packages : List (Text × Text)) :
    Contained fetchPackage options.installDir (fun w => installPackages w packages options) ↔
      AllEnter fetchPackage options packages := by
  constructor
  · intro contained
    have logs := contained Unit (ready fetchPackage) rfl
    rcases eq_or_ne options.parallelDownloads 0 with sequential | parallel
    · exact allEnter_of_sequential sequential logs
    · exact allEnter_of_parallel parallel logs
  · rintro ⟨dirs, tarballs⟩ σ w rfl
    exact logs_installPackages w (fun pair member => dirsSatisfy_of_enters (dirs pair member))
      fun turns pair member => tarballSatisfies_of_enters (tarballs turns pair member)

/-- Only paths strictly below the install directory are created or removed exactly if, to uninstall
a package, its name enters the install directory; to install it, its name does if it gets a
directory, and the path of its tarball if it has one; to install several, those of each package
that is come to do. -/
theorem contained_iff (pair : Text × Text) (packages : List (Text × Text)) :
    (Contained fetchPackage options.installDir
        (fun w => uninstallPackage w pair.1 options.installDir) ↔
      Enters options.installDir pair.1) ∧
    (Contained fetchPackage options.installDir
        (fun w => installPackage w pair.1 pair.2 options) ↔
      DirEnters fetchPackage options pair ∧ TarballEnters fetchPackage options pair) ∧
    (Contained fetchPackage options.installDir (fun w => installPackages w packages options) ↔
      AllEnter fetchPackage options packages) :=
  ⟨contained_uninstallPackage_iff fetchPackage options.installDir pair.1,
    contained_installPackage_iff fetchPackage options pair,
    contained_installPackages_iff fetchPackage options packages⟩

example : normal (packageDir "./node_modules".toList []) = normal "./node_modules".toList := by
  decide

/-- Under an empty name, the install directory itself is removed. -/
theorem not_contained_empty : ¬Contained onlyA "./node_modules".toList
    (fun w => uninstallPackage w [] "./node_modules".toList) := by
  rw [contained_uninstallPackage_iff, enters_iff_of_climbs_eq_zero (by decide)]
  decide

end Containment

end PackageInstaller

end ProtoJS.Npm
