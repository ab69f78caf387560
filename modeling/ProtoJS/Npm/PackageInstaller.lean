import ProtoJS.Machine.Effects
import ProtoJS.Npm.PackageMetadata
import ProtoJS.Strings.Regex

/-! # The package installer

The functions of `PackageInstaller`, and those of `NPMRegistry` that they call. What these do to the
rest of the world goes through a `World`: its state is of any type, and each of its operations may
throw. The downloads of one batch are taken one after the other.
-/

namespace ProtoJS.Npm

open Strings OrderedMap Effects

/-- The exceptions that pass through the installer. -/
inductive Failure where
  | outOfRange
  | filesystem
deriving DecidableEq, Repr

/-- What is outside. The registry's metadata do not change. -/
structure World (σ : Type) where
  fetchPackage : Text → Text → PackageMetadata PackageVersion
  pathExists : Text → EStateM Failure σ Bool
  createDirectories : Text → EStateM Failure σ PUnit
  removeAll : Text → EStateM Failure σ PUnit
  /-- From a URL to a target path. -/
  httpDownload : Text → Text → EStateM Failure σ Bool
  /-- The exit status of `tar -xzf tarballPath -C targetDir --strip-components=1`. -/
  system : Text → Text → EStateM Failure σ ℤ
  /-- The content of a file that an `ifstream` can open. -/
  readFile : Text → EStateM Failure σ (Option Text)

structure InstallOptions where
  production : Bool := false
  registry : Text := "https://registry.npmjs.org".toList
  installDir : Text := "./node_modules".toList
  /-- Zero is sequential. -/
  parallelDownloads : ℕ := 4
deriving DecidableEq, Repr

structure DownloadSpec where
  packageName : Text
  version : Text
  targetDir : Text
deriving DecidableEq, Repr

/-- The path of the tarball of a package in a directory. -/
def tarballPath (targetDir packageName version : Text) : Text :=
  targetDir ++ '/' :: packageName ++ '-' :: version ++ ".tgz".toList

variable {σ : Type} (w : World σ)

namespace NPMRegistry

/-- `resolveVersion`, whose exception passes through. -/
def resolve (packageName versionRange registry : Text) : EStateM Failure σ Text :=
  match resolveVersion w.fetchPackage packageName versionRange registry with
  | .ok version => return version
  | .error _ => throw .outOfRange

section Resolve

variable {w} {packageName versionRange version registry : Text}

theorem resolve_eq
    (resolved : resolveVersion w.fetchPackage packageName versionRange registry = .ok version) :
    resolve w packageName versionRange registry = pure version := by
  simp only [resolve, resolved]

theorem resolve_throws (fails : (resolveVersion w.fetchPackage packageName versionRange
    registry).isOk = false) : resolve w packageName versionRange registry = throw .outOfRange := by
  cases resolved : resolveVersion w.fetchPackage packageName versionRange registry with
  | ok version => simp [resolved, Except.isOk, Except.toBool] at fails
  | error e => simp only [resolve, resolved]

end Resolve

def downloadPackage (packageName version targetDir registry : Text) : EStateM Failure σ Bool :=
  match (w.fetchPackage packageName registry).versions.lookup version with
  | none => return false
  | some pv => do
    if pv.distTarball = [] then return false
    w.createDirectories targetDir
    w.httpDownload pv.distTarball (tarballPath targetDir packageName version)

/-- The URL of the tarball of a version, if the registry has both. -/
def tarballOf (metadata : PackageMetadata PackageVersion) (version : Text) : Option Text :=
  (metadata.versions.lookup version).bind fun pv =>
    if pv.distTarball = [] then none else some pv.distTarball

theorem downloadPackage_eq (packageName version targetDir registry : Text) :
    downloadPackage w packageName version targetDir registry =
      match tarballOf (w.fetchPackage packageName registry) version with
      | none => pure false
      | some url => w.createDirectories targetDir >>= fun _ =>
        w.httpDownload url (tarballPath targetDir packageName version) := by
  rw [downloadPackage, tarballOf]
  cases (w.fetchPackage packageName registry).versions.lookup version with
  | none => rfl
  | some pv =>
    rcases eq_or_ne pv.distTarball [] with empty | present
    · simp [empty]
    · simp [present]

/-- The specs in batches of one size. -/
def batches {α : Type} (size : ℕ) : ℕ → List α → List (List α)
  | 0, _ => []
  | fuel + 1, specs =>
    if specs = [] then [] else specs.take size :: batches size fuel (specs.drop size)

/-- `std::async` and, once the future is ready, what `get` does. -/
def startDownload (registry : Text) (outcomes : List (Except Failure Bool)) (s : DownloadSpec) :
    EStateM Failure σ (List (Except Failure Bool)) := do
  let outcome ← attempt (downloadPackage w s.packageName s.version s.targetDir registry)
  return outcomes ++ [outcome]

def getResult (results : List Bool) : Except Failure Bool → EStateM Failure σ (List Bool)
  | .ok ok => return results ++ [ok]
  | .error e => throw e

/-- All downloads of a batch end before an exception of one of them is thrown. -/
def downloadBatch (registry : Text) (results : List Bool) (batch : List DownloadSpec) :
    EStateM Failure σ (List Bool) := do
  let outcomes ← batch.foldlM (startDownload w registry) []
  outcomes.foldlM getResult results

def downloadPackages (specs : List DownloadSpec) (registry : Text) (maxConcurrency : ℕ) :
    EStateM Failure σ (List Bool) :=
  let maxConcurrency := if maxConcurrency = 0 then 1 else maxConcurrency
  (batches maxConcurrency specs.length specs).foldlM (downloadBatch w registry) []

end NPMRegistry

namespace PackageInstaller

open NPMRegistry

def packageDir (installDir packageName : Text) : Text := installDir ++ '/' :: packageName

def tempDir (installDir packageName : Text) : Text :=
  packageDir installDir packageName ++ "/.tmp".toList

def extractTarball (tarballPath targetDir : Text) : EStateM Failure σ Bool := do
  let result ← w.system tarballPath targetDir
  return result = 0

/-- What both installers do once the download has ended. -/
def finishPackage (installDir packageName version : Text) (downloaded : Bool) :
    EStateM Failure σ Bool := do
  let temp := tempDir installDir packageName
  if !downloaded then
    w.removeAll temp
    return false
  let extracted ← extractTarball w (tarballPath temp packageName version)
    (packageDir installDir packageName)
  w.removeAll temp
  return extracted

def installPackage (packageName version : Text) (options : InstallOptions) :
    EStateM Failure σ Bool := do
  let resolvedVersion ← resolve w packageName version options.registry
  if resolvedVersion = [] then return false
  w.createDirectories (packageDir options.installDir packageName)
  w.createDirectories (tempDir options.installDir packageName)
  let downloaded ← downloadPackage w packageName resolvedVersion
    (tempDir options.installDir packageName) options.registry
  finishPackage w options.installDir packageName resolvedVersion downloaded

/-- The loop that installs each package of a map; it goes on after a failure. -/
def installEach (options : InstallOptions) (packages : List (Text × Text)) :
    EStateM Failure σ Bool :=
  packages.foldlM (fun success pair => do
    let installed ← installPackage w pair.1 pair.2 options
    return if !installed then false else success) true

/-- A turn of the loop that resolves the versions: a package without one is skipped. -/
def addSpec (options : InstallOptions) (specs : List DownloadSpec) (pair : Text × Text) :
    EStateM Failure σ (List DownloadSpec) := do
  let resolved ← resolve w pair.1 pair.2 options.registry
  if resolved = [] then return specs
  w.createDirectories (packageDir options.installDir pair.1)
  w.createDirectories (tempDir options.installDir pair.1)
  return specs ++ [⟨pair.1, resolved, tempDir options.installDir pair.1⟩]

def resolveAll (options : InstallOptions) (packages : List (Text × Text)) :
    EStateM Failure σ (List DownloadSpec) :=
  packages.foldlM (addSpec w options) []

def finishAll (options : InstallOptions) (downloads : List (DownloadSpec × Bool)) :
    EStateM Failure σ Bool :=
  downloads.foldlM (fun success download => do
    let installed ← finishPackage w options.installDir download.1.packageName download.1.version
      download.2
    return if !installed then false else success) true

def installPackages (packages : List (Text × Text)) (options : InstallOptions) :
    EStateM Failure σ Bool := do
  if packages = [] then return true
  if options.parallelDownloads = 0 then installEach w options packages
  else
    let specs ← resolveAll w options packages
    if specs = [] then return false
    let downloadOk ← downloadPackages w specs options.registry options.parallelDownloads
    finishAll w options (specs.zip downloadOk)

def uninstallPackage (packageName installDir : Text) : EStateM Failure σ Bool := do
  if ← w.pathExists (packageDir installDir packageName) then
    w.removeAll (packageDir installDir packageName)
    return true
  else return false

def updatePackage (packageName versionRange : Text) (options : InstallOptions) :
    EStateM Failure σ Bool := do
  let _ ← uninstallPackage w packageName options.installDir
  installPackage w packageName versionRange options

/-- One or more characters other than a quote, between quotes. -/
def quotedName (index : ℕ) : Regex :=
  .seq (.char (· == '"')) (.seq (.group index (Regex.plus (.char (· != '"')))) (.char (· == '"')))

def depRegex : Regex :=
  .seq (quotedName 1) (.seq (.star Regex.space) (.seq (.char (· == ':'))
    (.seq (.star Regex.space) (quotedName 2))))

/-- From the key to the next closing brace. The second key is looked for where the first is not
there. -/
def depsSection (content : Text) (production : Bool) : Option Text :=
  let dependencies := "\"dependencies\"".toList
  let devDependencies := "\"devDependencies\"".toList
  let start : Option Text :=
    match content.dropInfix? dependencies with
    | some (_, rest) => some (dependencies ++ rest)
    | none =>
      if production then none
      else (content.dropInfix? devDependencies).map fun (_, rest) => devDependencies ++ rest
  start.bind fun text => if '}' ∈ text then some (text.takeWhile (· ≠ '}')) else none

/-- The dependencies in the content of a `package.json`, found by text search. -/
def dependenciesIn (content : Text) (production : Bool) : List (Text × Text) :=
  match depsSection content production with
  | none => []
  | some depsSection =>
    assignAll [] ((Regex.matches_ depRegex depsSection).map fun captures =>
      (Regex.submatch 1 captures, Regex.submatch 2 captures))

def parseDependencies (packageJsonPath : Text) (production : Bool) :
    EStateM Failure σ (List (Text × Text)) := do
  match ← w.readFile packageJsonPath with
  | none => return []
  | some content => return dependenciesIn content production

def resolveDependencies (dependencies : List (Text × Text)) (options : InstallOptions)
    (depth : ℕ) : EStateM Failure σ Bool := do
  if depth > 10 then return false
  installEach w options dependencies

def install (packageJsonPath : Text) (options : InstallOptions) : EStateM Failure σ Bool := do
  if !(← w.pathExists packageJsonPath) then return false
  let dependencies ← parseDependencies w packageJsonPath options.production
  if dependencies = [] then return true
  resolveDependencies w dependencies options 0

end PackageInstaller

end ProtoJS.Npm
