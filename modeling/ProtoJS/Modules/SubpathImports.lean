import ProtoJS.Modules.BareSpecifiers

/-! # Imports of a path inside a package

What the resolver returns for a bare specifier is the entry of the nearest package that has one:
the exports of a package are never read, and the search for the entry is reached whether the
specifier has a subpath or not.
-/

namespace ProtoJS.Modules

namespace ModuleResolver

section Entries

variable (fs : FileSystem)

/-- The file that the `package.json` of a directory names as entry. -/
def entryFile (packageDir : String) : Option String :=
  (parsePackageJson fs (packageDir ++ "/package.json")).bind fun package =>
    locate fs (packageDir ++ "/" ++ (entryPointOf package).1)

/-- The entry of a package in the `node_modules` of a directory. -/
def mainEntry (name current : String) : Option String :=
  let nodeModules := current ++ "/node_modules"
  let packageDir := nodeModules ++ "/" ++ name
  if isDirectory fs nodeModules && isDirectory fs packageDir &&
      isFile fs (packageDir ++ "/package.json") then
    entryFile fs packageDir
  else none

/-- The directories that are searched from a directory. -/
def walk (startDir : String) : List String :=
  ancestors (normalizePath fs startDir).length (normalizePath fs startDir)

/-- The file that the exports of a package give for a subpath, where `exportsTarget` reads them:
the target of a subpath in a `package.json`. -/
def exportedFile (exportsTarget : String → String → Option String) (packageDir subpath : String) :
    Option String :=
  ((fs.readFile (packageDir ++ "/package.json")).bind fun content =>
    exportsTarget content subpath).bind fun target =>
      if isFile fs (packageDir ++ "/" ++ target) then some (packageDir ++ "/" ++ target)
      else tryExtensions fs (packageDir ++ "/" ++ target) (getResolutionOrderExtensions fs.platform)

theorem exportedFile_of_none (packageDir subpath : String) :
    exportedFile fs (fun _ _ => none) packageDir subpath = none := by
  simp [exportedFile]

/-- The path is what the exports or the file system give for a specifier with a subpath, in one
of the directories of the walk. The file system gives a file, completed as paths are, or the
entry of a package at the place that the specifier names. -/
def SubpathGives (exportsTarget : String → String → Option String)
    (specifier startDir path : String) : Prop :=
  ∃ current ∈ walk fs startDir, ∃ file, path = normalizePath fs file ∧
    (exportedFile fs exportsTarget (current ++ "/node_modules" ++ "/" ++ declaredName specifier)
        (declaredSubpath specifier) = some file ∨
      locate fs (current ++ "/node_modules" ++ "/" ++ specifier) = some file ∨
      entryFile fs (current ++ "/node_modules" ++ "/" ++ specifier) = some file)

end Entries

section Walk

variable {fs : FileSystem} {specifier : String}

/-- A turn of the walk ends it with the entry of the package, or goes on with the path that it
was given. -/
theorem resolveInDirectory_mainEntry (current : String) (result : ResolveResult) :
    (resolveInDirectory fs specifier current result).2 =
        (mainEntry fs (packageNameOf specifier) current).isSome ∧
      (resolveInDirectory fs specifier current result).1.filePath =
        ((mainEntry fs (packageNameOf specifier) current).elim result.filePath
          (normalizePath fs)) := by
  unfold resolveInDirectory mainEntry entryFile
  dsimp only
  split
  · split
    · rename_i unread
      simp [unread]
    · rename_i package parsed
      rw [tryExports_of_parsed parsed, if_neg (by simp), parsed, Option.bind_some]
      split
      · rename_i file found
        rw [found]
        exact ⟨rfl, rfl⟩
      · rename_i unfound
        rw [unfound]
        exact ⟨rfl, rfl⟩
  · exact ⟨rfl, rfl⟩

theorem resolveAlong_filePath (directories : List String) (result : ResolveResult) :
    (resolveAlong fs specifier directories result).filePath =
      (directories.findSome? (mainEntry fs (packageNameOf specifier))).elim result.filePath
        (normalizePath fs) := by
  induction directories generalizing result with
  | nil => rfl
  | cons current rest ih =>
    obtain ⟨ends, path⟩ := @resolveInDirectory_mainEntry fs specifier current result
    rw [resolveAlong, List.findSome?_cons]
    generalize resolveInDirectory fs specifier current result = turn at ends path ⊢
    obtain ⟨next, ended⟩ := turn
    cases entry : mainEntry fs (packageNameOf specifier) current with
    | none =>
      rw [entry] at ends path
      cases ends
      exact (ih next).trans (by rw [path]; rfl)
    | some file =>
      rw [entry] at ends path
      cases ends
      exact path

/-- The path of the result is that of the nearest entry. -/
theorem resolveNodeModules_filePath (startDir : String) :
    (resolveNodeModules fs specifier startDir).filePath =
      ((walk fs startDir).findSome? (mainEntry fs (packageNameOf specifier))).elim ""
        (normalizePath fs) :=
  resolveAlong_filePath _ {}

/-- The subpath of the specifier plays no part. -/
theorem resolveNodeModules_filePath_congr {other : String}
    (same : packageNameOf specifier = packageNameOf other) (startDir : String) :
    (resolveNodeModules fs specifier startDir).filePath =
      (resolveNodeModules fs other startDir).filePath := by
  rw [resolveNodeModules_filePath, resolveNodeModules_filePath, same]

end Walk

/-- A resolved path is what the subpath gives exactly when the nearest entry, if there is one, is
what the subpath gives. -/
theorem subpathGives_iff (fs : FileSystem) (exportsTarget : String → String → Option String)
    (specifier startDir : String) :
    ((resolveNodeModules fs specifier startDir).filePath ≠ "" →
        SubpathGives fs exportsTarget specifier startDir
          (resolveNodeModules fs specifier startDir).filePath) ↔
      ∀ nearer current farther, walk fs startDir = nearer ++ current :: farther →
        (∀ directory ∈ nearer, mainEntry fs (packageNameOf specifier) directory = none) →
        ∀ entry, mainEntry fs (packageNameOf specifier) current = some entry →
          normalizePath fs entry ≠ "" →
            SubpathGives fs exportsTarget specifier startDir (normalizePath fs entry) := by
  rw [resolveNodeModules_filePath]
  constructor
  · intro gives nearer current farther split none entry found there
    have nearest : (walk fs startDir).findSome? (mainEntry fs (packageNameOf specifier)) =
        some entry :=
      List.findSome?_eq_some_iff.mpr ⟨nearer, current, farther, split, found, none⟩
    rw [nearest] at gives
    exact gives there
  · intro gives there
    cases nearest : (walk fs startDir).findSome? (mainEntry fs (packageNameOf specifier)) with
    | none =>
      rw [nearest] at there
      exact absurd rfl there
    | some entry =>
      rw [nearest] at there
      obtain ⟨nearer, current, farther, split, found, none⟩ := List.findSome?_eq_some_iff.mp nearest
      exact gives nearer current farther split none entry found there

/-- A package with a scope, and a file in it next to its entry. -/
def scopedPackage : FileSystem := FileSystem.ofFiles
  [("/home/node_modules/@s/p/package.json", "\x7b\"main\": \"main.js\"\x7d"),
    ("/home/node_modules/@s/p/main.js", ""), ("/home/node_modules/@s/p/sub.js", "")]
  ["/home", "/home/node_modules", "/home/node_modules/@s", "/home/node_modules/@s/p"]

/-- The main entry stands in for a file that is there. -/
theorem not_subpathGives_scoped :
    ¬((resolveNodeModules scopedPackage "@s/p/sub" "/home").filePath ≠ "" →
        SubpathGives scopedPackage (fun _ _ => none) "@s/p/sub" "/home"
          (resolveNodeModules scopedPackage "@s/p/sub" "/home").filePath) ∧
    (resolveNodeModules scopedPackage "@s/p/sub" "/home").filePath =
      "/home/node_modules/@s/p/main.js" ∧
    declaredSubpath "@s/p/sub" = "sub" := by
  have alone : walk scopedPackage "/home" = ["/home"] := by decide
  have entry : mainEntry scopedPackage (packageNameOf "@s/p/sub") "/home" =
      some "/home/node_modules/@s/p/main.js" := by
    decide
  have path : (resolveNodeModules scopedPackage "@s/p/sub" "/home").filePath =
      "/home/node_modules/@s/p/main.js" := by
    rw [resolveNodeModules_filePath, alone, List.findSome?_cons, entry]
    decide
  refine ⟨?_, path, by decide⟩
  intro gives
  rw [path] at gives
  obtain ⟨current, member, file, same, sources⟩ := gives (by decide)
  have here : current = "/home" := by
    rw [alone] at member
    simpa using member
  subst here
  rcases sources with exported | located | nested
  · rw [exportedFile_of_none] at exported
    cases exported
  · have sub : locate scopedPackage ("/home" ++ "/node_modules" ++ "/" ++ "@s/p/sub") =
        some "/home/node_modules/@s/p/sub.js" := by
      decide
    rw [sub] at located
    cases located
    revert same
    decide
  · have none : entryFile scopedPackage ("/home" ++ "/node_modules" ++ "/" ++ "@s/p/sub") =
        none := by
      decide
    rw [none] at nested
    cases nested

end ModuleResolver

end ProtoJS.Modules
