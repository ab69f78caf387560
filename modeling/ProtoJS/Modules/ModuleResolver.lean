import Mathlib

/-! # The module resolver

`ModuleResolver::resolve` turns a specifier and the path it is required from into the path of a
file. What the resolver asks of the operating system is a `FileSystem`; it never changes. The
string functions are those of the C++ library, with `none` for `npos`.
-/

namespace ProtoJS.Modules

section Text

/-- `text.find(pattern, position)`. -/
def find (pattern text : String) (position : ℕ) : Option ℕ :=
  (List.range (text.length + 1)).find? fun i =>
    position ≤ i && pattern.toList.isPrefixOf (text.toList.drop i)

/-- `text.find_last_of('/')`. -/
def findLastSlash (text : String) : Option ℕ :=
  (List.range text.length).reverse.find? fun i => text.toList[i]? == some '/'

/-- `text.substr(position)`. -/
def substrFrom (text : String) (position : ℕ) : String := String.ofList (text.toList.drop position)

/-- `text.substr(position, length)`. -/
def substr (text : String) (position length : ℕ) : String :=
  String.ofList ((text.toList.drop position).take length)

/-- The text is at least as long as the suffix and ends in it. -/
def endsIn (suffix text : String) : Bool := suffix.toList.isSuffixOf text.toList

def startsIn (start text : String) : Bool := start.toList.isPrefixOf text.toList

end Text

inductive FileKind where
  | regular
  | directory
  | other
deriving DecidableEq, Repr

/-- The platforms that `PROTOJS_LIB_EXT` tells apart. -/
inductive Platform where
  | windows
  | apple
  | unix
deriving DecidableEq, Repr

/-- What the operating system answers. -/
structure FileSystem where
  platform : Platform
  /-- `stat`; `none` when it fails. -/
  stat : String → Option FileKind
  /-- `std::filesystem::canonical`; `none` when it throws. -/
  canonical : String → Option String
  /-- The content of a file that an `ifstream` can open. -/
  readFile : String → Option String

/-- A path without its `.` segments. -/
def withoutDots (path : String) : String :=
  String.ofList (['/'].intercalate ((path.toList.splitOn '/').filter (· ≠ ['.'])))

/-- Files and directories under absolute paths, on a Unix platform and without links. -/
def FileSystem.ofFiles (files : List (String × String)) (directories : List String) : FileSystem where
  platform := .unix
  stat path :=
    if (files.lookup (withoutDots path)).isSome then some .regular
    else if withoutDots path ∈ directories then some .directory
    else none
  canonical path :=
    if (files.lookup (withoutDots path)).isSome ∨ withoutDots path ∈ directories then
      some (withoutDots path)
    else none
  readFile path := files.lookup (withoutDots path)

inductive ModuleType where
  | esm
  | commonJS
  | native
deriving DecidableEq, Repr

/-- `ResolveResult`; an empty `filePath` says that nothing was found. -/
structure ResolveResult where
  filePath : String := ""
  type : ModuleType := .commonJS
  packageName : String := ""
  packageVersion : String := ""
  isPackage : Bool := false
deriving DecidableEq, Repr

/-- What `parsePackageJson` reads. -/
structure PackageJson where
  main : String := ""
  module : String := ""
  type : String := ""
  exports : List (String × String) := []
deriving DecidableEq, Repr

namespace ModuleResolver

def getLibraryExtensionPlatform : Platform → String
  | .windows => ".dll"
  | .apple => ".dylib"
  | .unix => ".so"

def getResolutionOrderExtensions (platform : Platform) : List String :=
  [".node", getLibraryExtensionPlatform platform, ".protojs", ".js", ".mjs"]

def isNativeExtension (filePath : String) : Bool :=
  endsIn ".node" filePath || endsIn ".so" filePath || endsIn ".dll" filePath ||
    endsIn ".dylib" filePath || endsIn ".protojs" filePath

def typeOfPath (filePath : String) : ModuleType :=
  if endsIn ".mjs" filePath then .esm
  else if isNativeExtension filePath then .native
  else .commonJS

def setTypeFromPath (result : ResolveResult) : ResolveResult :=
  { result with type := typeOfPath result.filePath }

def getDirectory (filePath : String) : String :=
  match findLastSlash filePath with
  | none => "."
  | some lastSlash => substr filePath 0 lastSlash

/-- Every `//` is replaced by `/`, and the search goes on at the replacement. -/
def collapseSlashes : List Char → List Char
  | [] => []
  | c :: rest =>
    if c = '/' ∧ rest.head? = some '/' then collapseSlashes rest else c :: collapseSlashes rest

section FileSystem

variable (fs : FileSystem)

def isFile (path : String) : Bool := fs.stat path == some .regular

def isDirectory (path : String) : Bool := fs.stat path == some .directory

def normalizePath (path : String) : String :=
  match fs.canonical path with
  | some normalized => normalized
  | none => String.ofList (collapseSlashes path.toList)

/-- The first extension with which the path is a file. -/
def tryExtensions (basePath : String) (extensions : List String) : Option String :=
  (extensions.map (basePath ++ ·)).find? (isFile fs)

def indexFiles : List String :=
  ["index.node", "index" ++ getLibraryExtensionPlatform fs.platform, "index.protojs", "index.js",
    "index.mjs"]

def tryDirectory (dirPath : String) : Option String :=
  ((indexFiles fs).map fun indexFile => dirPath ++ "/" ++ indexFile).find? (isFile fs)

/-- The cascade after a path has been formed: the file itself, with an extension, or the index of
a directory. -/
def locate (path : String) : Option String :=
  if isFile fs path then some path
  else
    match tryExtensions fs path (getResolutionOrderExtensions fs.platform) with
    | some withExt => some withExt
    | none => if isDirectory fs path then tryDirectory fs path else none

/-- One string field, found by text search. -/
def extractField (content name : String) : String :=
  match find ("\"" ++ name ++ "\"") content 0 with
  | none => ""
  | some position =>
    match (find ":" content position).bind fun colon => find "\"" content colon with
    | none => ""
    | some startQuote =>
      match find "\"" content (startQuote + 1) with
      | none => ""
      | some endQuote => substr content (startQuote + 1) (endQuote - startQuote - 1)

/-- `parsePackageJson`: the text of the exports field is cut out and then not used. -/
def parsePackageJson (packageJsonPath : String) : Option PackageJson :=
  (fs.readFile packageJsonPath).map fun content =>
    { main := extractField content "main"
      module := extractField content "module"
      type := extractField content "type"
      exports := [] }

def resolveExports (packageJsonPath specifier packageDir : String) : ResolveResult :=
  match parsePackageJson fs packageJsonPath with
  | none => {}
  | some package =>
    match package.exports.lookup specifier with
    | none => {}
    | some target =>
      let exportPath := packageDir ++ "/" ++ target
      if isFile fs exportPath then setTypeFromPath { filePath := normalizePath fs exportPath }
      else
        match tryExtensions fs exportPath (getResolutionOrderExtensions fs.platform) with
        | some withExt => setTypeFromPath { filePath := normalizePath fs withExt }
        | none => {}

/-- The package name of a bare specifier: up to its second slash, whatever it starts with. -/
def packageNameOf (specifier : String) : String :=
  match find "/" specifier 0 with
  | none => specifier
  | some scopePos =>
    match find "/" specifier (scopePos + 1) with
    | none => specifier
    | some nextSlash => substr specifier 0 nextSlash

def subpathOf (specifier : String) : String :=
  match find "/" specifier 0 with
  | none => ""
  | some scopePos =>
    match find "/" specifier (scopePos + 1) with
    | none => ""
    | some nextSlash => substrFrom specifier (nextSlash + 1)

/-- The entry point a package names, and the type that goes with it. -/
def entryPointOf (package : PackageJson) : String × ModuleType :=
  if package.module ≠ "" ∧ package.type = "module" then (package.module, .esm)
  else if package.main ≠ "" then
    (package.main, if package.type = "module" then .esm else .commonJS)
  else ("index.js", .commonJS)

/-- The exports field is tried first, for a subpath. -/
def tryExports (packageJson packageDir specifier : String) (package : PackageJson) :
    ResolveResult :=
  if !package.exports.isEmpty && subpathOf specifier != "" then
    resolveExports fs packageJson (subpathOf specifier) packageDir
  else {}

/-- One turn of the walk: the result, and whether it is returned at once. -/
def resolveInDirectory (specifier current : String) (result : ResolveResult) :
    ResolveResult × Bool :=
  let nodeModules := current ++ "/node_modules"
  let packageName := packageNameOf specifier
  let packageDir := nodeModules ++ "/" ++ packageName
  let packageJson := packageDir ++ "/package.json"
  if isDirectory fs nodeModules && isDirectory fs packageDir && isFile fs packageJson then
    match parsePackageJson fs packageJson with
    | none => (result, false)
    | some package =>
      let result := { result with isPackage := true, packageName := packageName }
      let exported := tryExports fs packageJson packageDir specifier package
      if exported.filePath ≠ "" then (exported, true)
      else
        let (entryPoint, type) := entryPointOf package
        let result := { result with type := type }
        match locate fs (packageDir ++ "/" ++ entryPoint) with
        | some file => (setTypeFromPath { result with filePath := normalizePath fs file }, true)
        | none => (result, false)
  else (result, false)

/-- The directories of the walk: up to the root, which is left out. -/
def ancestors : ℕ → String → List String
  | 0, _ => []
  | fuel + 1, current =>
    if current = "" ∨ current = "/" then []
    else
      current :: match findLastSlash current with
        | none => []
        | some lastSlash =>
          let parent := substr current 0 lastSlash
          ancestors fuel (if parent = "" then "/" else parent)

def resolveAlong (specifier : String) : List String → ResolveResult → ResolveResult
  | [], result => result
  | current :: rest, result =>
    match resolveInDirectory fs specifier current result with
    | (result, true) => result
    | (result, false) => resolveAlong specifier rest result

/-- Every step of the walk shortens the path, so its length is fuel enough. -/
def resolveNodeModules (specifier startDir : String) : ResolveResult :=
  let current := normalizePath fs startDir
  resolveAlong fs specifier (ancestors current.length current) {}

/-- The directory that `resolve` starts from. -/
def fromDir (fromPath : String) : String :=
  let directory := if isFile fs fromPath then getDirectory fromPath else fromPath
  if directory = "" then "." else directory

def isAbsolute (specifier : String) : Bool := startsIn "/" specifier

def isRelative (specifier : String) : Bool := startsIn "./" specifier || startsIn "../" specifier

/-- An absolute specifier that leads to no file leaves its path in the result. -/
def resolveAbsolute (specifier : String) : ResolveResult :=
  let path := normalizePath fs specifier
  match locate fs path with
  | some file => setTypeFromPath { filePath := file }
  | none => { filePath := path }

/-- A relative specifier, resolved against a directory. -/
def resolveRelative (directory specifier : String) : ResolveResult :=
  match locate fs (normalizePath fs (directory ++ "/" ++ specifier)) with
  | some file => setTypeFromPath { filePath := file }
  | none => {}

def resolve (specifier fromPath : String) : ResolveResult :=
  if isAbsolute specifier then resolveAbsolute fs specifier
  else if isRelative specifier then resolveRelative fs (fromDir fs fromPath) specifier
  else resolveNodeModules fs specifier (fromDir fs fromPath)

end FileSystem

variable {fs : FileSystem} {specifier fromPath : String}

/-- A relative specifier starts with a dot, not with a slash. -/
theorem not_isAbsolute_of_isRelative (relative : isRelative specifier = true) :
    isAbsolute specifier = false := by
  have dotted : ∃ rest, specifier.toList = '.' :: rest := by
    simp only [isRelative, startsIn, Bool.or_eq_true, List.isPrefixOf_iff_prefix] at relative
    rcases relative with ⟨rest, same⟩ | ⟨rest, same⟩
    · exact ⟨'/' :: rest, same.symm⟩
    · exact ⟨'.' :: '/' :: rest, same.symm⟩
  obtain ⟨rest, same⟩ := dotted
  rw [isAbsolute, startsIn, same]
  rfl

/-- All that a relative specifier takes from the requiring path is its directory. -/
theorem resolve_of_isRelative (relative : isRelative specifier = true) :
    resolve fs specifier fromPath = resolveRelative fs (fromDir fs fromPath) specifier := by
  simp [resolve, relative, not_isAbsolute_of_isRelative relative]

/-- What the cascade finds is a regular file. -/
theorem isFile_of_locate {path file : String} (found : locate fs path = some file) :
    isFile fs file = true := by
  unfold locate at found
  split at found
  · rename_i there
    cases found
    exact there
  · split at found
    · rename_i withExt tried
      cases found
      exact List.find?_some tried
    · split at found
      · exact List.find?_some found
      · cases found

/-- A result says what its path says, or has no path and is no native module. -/
def WellTyped (result : ResolveResult) : Prop :=
  result.type = typeOfPath result.filePath ∨ result.type ≠ .native

private theorem wellTyped_resolveExports {packageJsonPath subpath packageDir : String} :
    WellTyped (resolveExports fs packageJsonPath subpath packageDir) := by
  unfold resolveExports
  split
  · exact .inr nofun
  · split
    · exact .inr nofun
    · simp only
      split
      · exact .inl rfl
      · split
        · exact .inl rfl
        · exact .inr nofun

private theorem wellTyped_tryExports {packageJson packageDir : String} {package : PackageJson} :
    WellTyped (tryExports fs packageJson packageDir specifier package) := by
  unfold tryExports
  split
  · exact wellTyped_resolveExports
  · exact .inr nofun

private theorem entryPointOf_ne_native (package : PackageJson) :
    (entryPointOf package).2 ≠ .native := by
  unfold entryPointOf
  split
  · nofun
  · split
    · split <;> nofun
    · nofun

private theorem wellTyped_resolveInDirectory (current : String) {result : ResolveResult}
    (typed : WellTyped result) : WellTyped (resolveInDirectory fs specifier current result).1 := by
  unfold resolveInDirectory
  simp only
  split
  · split
    · exact typed
    · rename_i package _
      split
      · exact wellTyped_tryExports
      · split
        · exact .inl rfl
        · exact .inr (entryPointOf_ne_native package)
  · exact typed

/-- What every turn of the walk keeps, the walk keeps. -/
theorem resolveAlong_keeps {P : ResolveResult → Prop}
    (turns : ∀ current result, P result → P (resolveInDirectory fs specifier current result).1)
    (directories : List String) {result : ResolveResult} (holds : P result) :
    P (resolveAlong fs specifier directories result) := by
  induction directories generalizing result with
  | nil => exact holds
  | cons current rest ih =>
    have turn := turns current result holds
    unfold resolveAlong
    split
    · rename_i returned
      rwa [returned] at turn
    · rename_i continued
      rw [continued] at turn
      exact ih turn

private theorem wellTyped_resolve (fs : FileSystem) (specifier fromPath : String) :
    WellTyped (resolve fs specifier fromPath) := by
  unfold resolve
  split
  · simp only [resolveAbsolute]
    split
    · exact .inl rfl
    · exact .inr nofun
  · split
    · simp only [resolveRelative]
      split
      · exact .inl rfl
      · exact .inr nofun
    · refine resolveAlong_keeps (fun current _ => ?_) _ (.inr nofun)
      exact wellTyped_resolveInDirectory current

/-- Only a path that ends as native libraries do is loaded as one. -/
theorem typeOfPath_of_native (isNative : (resolve fs specifier fromPath).type = .native) :
    typeOfPath (resolve fs specifier fromPath).filePath = .native := by
  rcases wellTyped_resolve fs specifier fromPath with typed | other
  · rw [← typed, isNative]
  · exact absurd isNative other

end ModuleResolver

end ProtoJS.Modules
