import ProtoJS.Modules.ModuleResolver
import ProtoJS.Strings.Regex

/-! # The ES module loader

`ESModuleLoader::loadModule`: a cache is asked under a key made of the specifier and the importing
path, then the specifier is resolved, the source is read and searched for imports, these are
loaded, the source is evaluated and a namespace object is made and cached. What the engine does
with a source is an `Engine`. Calls nest, and each level takes some of the machine's stack: a load
that needs more levels than there are does not return.
-/

namespace ProtoJS.Modules

open Strings

/-- `CachedModule`, without its load time. -/
structure CachedModule where
  type : ModuleType
  moduleObject : ℕ
  filePath : String
  dependencies : List String
  resolvedSpecifier : String
deriving DecidableEq, Repr

abbrev ModuleCache := String → Option CachedModule

namespace ModuleCache

def get (cache : ModuleCache) (key : String) : Option CachedModule := cache key

def put (cache : ModuleCache) (key : String) (module : CachedModule) : ModuleCache :=
  Function.update cache key (some module)

end ModuleCache

/-- How a source exports: a declaration, a list of local names each with the name it is exported
under, or a default. -/
inductive Export where
  | declaration (name : String)
  | list (names : List (String × String))
  | default
deriving DecidableEq, Repr

/-- One evaluation of a file, and whether it ended without an exception. -/
structure Evaluation where
  filePath : String
  succeeded : Bool
deriving DecidableEq, Repr

/-- What the JavaScript engine does, over its values. -/
structure Engine (V : Type) where
  newBool : Bool → V
  /-- `JS_Eval` of a module, after some other evaluations, under a path: what it binds to its
  local names, or an exception. -/
  evaluate : List Evaluation → String → String → Option (String → V)
  /-- The export forms of a source. -/
  exports : String → List Export

/-- `ESModuleRecord`; `none` for a default export that is undefined. -/
structure ESModuleRecord (V : Type) where
  specifier : String := ""
  filePath : String
  exports : List (String × V) := []
  defaultExport : Option V := none
  dependencies : List String := []
  importBindings : String → Option String := fun _ => none
  isEvaluated : Bool := false
  isEvaluating : Bool := false
  sourceCode : String

/-- A call of `loadModule`. -/
structure Request where
  specifier : String
  fromPath : String
deriving DecidableEq, Repr

/-- The key of the cache. -/
def Request.cacheKey (request : Request) : String := request.specifier ++ ":" ++ request.fromPath

/-- A load that has returned a namespace object. -/
structure Load where
  request : Request
  object : ℕ
deriving DecidableEq, Repr

/-- The cache, the namespace objects by their numbers, and what has happened so far. -/
structure LoaderState (V : Type) where
  cache : ModuleCache
  objects : List (List (String × V))
  evaluations : List Evaluation
  loads : List Load

/-- What `loadModule` returns. -/
inductive Outcome where
  | namespaceObj (object : ℕ)
  | typeError (message : String)
deriving DecidableEq, Repr

namespace ESModuleLoader

section Regexes

open Regex

/-- A single or a double quote. -/
def isQuote (c : Char) : Bool := c.toNat = 39 || c.toNat = 34

def quote : Regex := char isQuote

/-- What stands between quotes: no quote, and not nothing. -/
def quoted : Regex := plus (char fun c => !isQuote c)

/-- What stands between braces. -/
def braced : Regex := plus (char fun c => c != '}')

/-- A sequence of expressions. -/
def inOrder (parts : List Regex) : Regex := parts.foldr seq empty

def importRegex : Regex :=
  inOrder [literal "import".toList, plus space,
    alt (inOrder [literal "*".toList, plus space, literal "as".toList, plus space,
        group 1 (plus word)])
      (alt (inOrder [char (· == '{'), group 2 braced, char (· == '}')])
        (alt (group 3 (plus word))
          (inOrder [group 4 (plus word), star space, literal ",".toList, star space,
            char (· == '{'), group 5 braced, char (· == '}')]))),
    plus space, literal "from".toList, plus space, quote, group 6 quoted, quote]

def dynamicImportRegex : Regex :=
  inOrder [literal "import".toList, star space, literal "(".toList, star space, quote,
    group 1 quoted, quote, star space, literal ")".toList]

end Regexes

section Records

variable {V : Type} (engine : Engine V)

/-- What one static import adds to the bindings. -/
def addImportBinding (bindings : String → Option String) (captures : Captures) :
    String → Option String :=
  if Regex.submatch 1 captures ≠ [] then
    Function.update bindings (String.ofList (Regex.submatch 1 captures)) (some "*")
  else if Regex.submatch 2 captures ≠ [] then bindings
  else if Regex.submatch 3 captures ≠ [] then
    Function.update bindings (String.ofList (Regex.submatch 3 captures)) (some "default")
  else bindings

/-- The specifiers of the static imports come first, then those of the dynamic ones. -/
def extractImports (record : ESModuleRecord V) (source : String) : ESModuleRecord V :=
  let static := Regex.matches_ importRegex source.toList
  let dynamic := Regex.matches_ dynamicImportRegex source.toList
  { record with
    dependencies := record.dependencies ++
      static.map (fun captures => String.ofList (Regex.submatch 6 captures)) ++
      dynamic.map fun captures => String.ofList (Regex.submatch 1 captures)
    importBindings := static.foldl addImportBinding record.importBindings }

/-- The loop over the matches has an empty body. -/
def extractExports (record : ESModuleRecord V) (_source : String) : ESModuleRecord V := record

def parseModule (filePath source : String) : ESModuleRecord V :=
  extractExports (extractImports { filePath, sourceCode := source } source) source

/-- Nothing is bound. -/
def bindImports (record : ESModuleRecord V) : ESModuleRecord V := record

/-- An exception is printed and dropped. -/
def evaluateModule (s : LoaderState V) (record : ESModuleRecord V) :
    LoaderState V × ESModuleRecord V :=
  if record.isEvaluated then (s, record)
  else if record.isEvaluating then (s, record)
  else
    match engine.evaluate s.evaluations record.filePath record.sourceCode with
    | none => ({ s with evaluations := s.evaluations ++ [⟨record.filePath, false⟩] },
        { record with isEvaluating := false })
    | some _ => ({ s with evaluations := s.evaluations ++ [⟨record.filePath, true⟩] },
        { bindImports { record with isEvaluating := true } with
          isEvaluating := false, isEvaluated := true })

/-- `JS_SetPropertyStr` on a fresh object. -/
def setProperty (name : String) (value : V) (object : List (String × V)) : List (String × V) :=
  (name, value) :: object.filter fun property => property.1 ≠ name

def createNamespaceObject (s : LoaderState V) (record : ESModuleRecord V) : ℕ × LoaderState V :=
  let exported := record.exports.foldl (fun object property =>
    setProperty property.1 property.2 object) []
  let withDefault := match record.defaultExport with
    | none => exported
    | some value => setProperty "default" value exported
  let namespaceObj := setProperty "__esModule" (engine.newBool true) withDefault
  (s.objects.length, { s with objects := s.objects ++ [namespaceObj] })

end Records

section Load

variable {V : Type} (fs : FileSystem) (engine : Engine V)

/-- What a nested call leaves behind; `none` when it does not return. -/
abbrev Loading (V : Type) := LoaderState V → Request → Option (Outcome × LoaderState V)

/-- Only dependencies that are ES modules are loaded, and what their loads return is dropped. -/
def resolveDependencies (load : Loading V) (s : LoaderState V) (record : ESModuleRecord V) :
    Option (LoaderState V) :=
  record.dependencies.foldlM (fun s dep =>
    let resolved := ModuleResolver.resolve fs dep record.filePath
    if resolved.filePath ≠ "" ∧ resolved.type = .esm then
      (load s ⟨dep, record.filePath⟩).map Prod.snd
    else some s) s

def moduleRecord (request : Request) (filePath source : String) : ESModuleRecord V :=
  { parseModule filePath source with specifier := request.specifier, filePath }

/-- The part of `loadModule` that follows the dependencies. -/
def finishLoad (s : LoaderState V) (request : Request) (record : ESModuleRecord V) :
    Outcome × LoaderState V :=
  let (s, record) := evaluateModule engine s record
  let (object, s) := createNamespaceObject engine s record
  (.namespaceObj object, { s with
    cache := s.cache.put request.cacheKey
      { type := .esm
        moduleObject := object
        filePath := record.filePath
        dependencies := record.dependencies
        resolvedSpecifier := request.specifier } })

/-- The part of `loadModule` that follows reading the source. -/
def loadSource (load : Loading V) (s : LoaderState V) (request : Request)
    (filePath source : String) : Option (Outcome × LoaderState V) :=
  let record := moduleRecord request filePath source
  (resolveDependencies fs load s record).map fun s => finishLoad engine s request record

/-- The part of `loadModule` that follows the look into the cache. -/
def loadUncached (load : Loading V) (s : LoaderState V) (request : Request) :
    Option (Outcome × LoaderState V) :=
  let resolved := ModuleResolver.resolve fs request.specifier request.fromPath
  if resolved.filePath = "" then
    some (.typeError ("Module not found: " ++ request.specifier), s)
  else if resolved.type ≠ .esm then
    some (.typeError ("Not an ES module: " ++ request.specifier), s)
  else
    match fs.readFile resolved.filePath with
    | none => some (.typeError ("Cannot open module: " ++ resolved.filePath), s)
    | some source => loadSource fs engine load s request resolved.filePath source

/-- The namespace object of an ES module in the cache. -/
def cachedObject (cache : ModuleCache) (key : String) : Option ℕ :=
  (cache.get key).bind fun cached =>
    if cached.type = .esm then some cached.moduleObject else none

/-- A load that returned a namespace object is noted. -/
def note (request : Request) : Outcome × LoaderState V → Outcome × LoaderState V
  | (.namespaceObj object, s) =>
    (.namespaceObj object, { s with loads := s.loads ++ [⟨request, object⟩] })
  | (.typeError message, s) => (.typeError message, s)

/-- `loadModule` with so many levels of calls. -/
def loadModule : ℕ → LoaderState V → Request → Option (Outcome × LoaderState V)
  | 0, _, _ => none
  | stack + 1, s, request =>
    Option.map (note request)
      (match cachedObject s.cache request.cacheKey with
      | some object => some (.namespaceObj object, s)
      | none => loadUncached fs engine (loadModule stack) s request)

/-- The call returns when the stack is large enough. -/
def Returns (s : LoaderState V) (request : Request) : Prop :=
  ∃ stack, (loadModule fs engine stack s request).isSome

def empty : LoaderState V := ⟨fun _ => none, [], [], []⟩

end Load

/-- An engine that evaluates every source and binds nothing. -/
def idleEngine : Engine Unit where
  newBool _ := ()
  evaluate _ _ _ := some fun _ => ()
  exports _ := []

end ESModuleLoader

end ProtoJS.Modules
