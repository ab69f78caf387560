import ProtoJS.Machine.Run
import ProtoJS.Modules.ModuleResolver

/-! # The CommonJS loader

`CommonJSLoader::require` and the functions it calls, on one thread. A module body is what its
wrapped source does with its five parameters: writes to `exports` and `module`, nested requires
that are caught or propagate, and throws. Bodies nest, so an evaluation is a frame and one step
carries out one statement of the innermost frame. Objects are named by the function that
allocates them. Values of the engine, of native modules and of the built-in objects are opaque
and lead to no object of this heap; reference counts are left out.
-/

namespace ProtoJS.Modules.CommonJSLoader

open ModuleResolver

/-- The functions that allocate objects. -/
inductive Site where
  /-- `require`, for a JavaScript module. -/
  | require
  | wrapModule
  /-- `require`, for a native module. -/
  | native
  /-- `require`, for the built-in `buffer`. -/
  | builtin
  /-- An object literal of a module body. -/
  | body
deriving DecidableEq, Repr

/-- The objects of one allocation. -/
inductive Part where
  | module
  | exports
  | children
  | plain
deriving DecidableEq, Repr

structure Address where
  site : Site
  number : ℕ
  part : Part
deriving DecidableEq, Repr

inductive Value where
  | undefined
  | null
  | boolean (b : Bool)
  | string (text : String)
  /-- A literal of a script, or a value from outside of the loader. -/
  | foreign (n : ℕ)
  | object (address : Address)
deriving DecidableEq, Repr

/-- What a body can write. -/
inductive Expr where
  | literal (n : ℕ)
  | emptyObject
  /-- The five parameters of the wrapper, but for `require`. -/
  | exports
  | module
  | filename
  | dirname
  /-- The value of the body's require of that index. -/
  | result (index : ℕ)
  | resultProperty (index : ℕ) (name : String)
deriving DecidableEq, Repr

inductive Stmt where
  /-- `exports.name = e`. -/
  | assignExports (name : String) (e : Expr)
  /-- `module.name = e`. -/
  | assignModule (name : String) (e : Expr)
  /-- A call of `require`, inside of a `try` or not; `none` is a call without an argument. -/
  | require (argument : Option String) (caught : Bool)
  | throw (text : String)
deriving DecidableEq, Repr

/-- What the loader asks of code outside of it. -/
structure Environment where
  fileSystem : FileSystem
  /-- `JS_Eval` of a wrapped source: the body, or the text of a syntax error. -/
  evaluate : String → Except String (List Stmt)
  hasProtoSpace : Bool
  hasProtoContext : Bool
  /-- `getImportModule` and the conversion of its exports. -/
  importModule : String → Option ℕ
  globalProperty : String → Option ℕ
  /-- `DynamicLibraryLoader::load`. -/
  loadLibrary : String → Bool
  /-- `DynamicLibraryLoader::initializeModule`. -/
  initializeModule : String → Except String ℕ
  foreignProperty : ℕ → String → Option ℕ
  /-- What an object inherits under a name. -/
  inherited : String → Option ℕ

/-- JavaScript files alone: no native modules and no built-in ones. -/
def Environment.ofFiles (fileSystem : FileSystem) (evaluate : String → Except String (List Stmt)) :
    Environment where
  fileSystem := fileSystem
  evaluate := evaluate
  hasProtoSpace := true
  hasProtoContext := true
  importModule _ := none
  globalProperty _ := none
  loadLibrary _ := false
  initializeModule _ := .error "no native modules"
  foreignProperty _ _ := none
  inherited _ := none

/-- Where the value last assigned to `module.exports` came from. -/
inductive Origin where
  /-- The object that `wrapModule` made, a literal, a parameter, or the value of a require. -/
  | direct
  /-- A property of the value of a require. -/
  | property (value : Value) (name : String)
deriving DecidableEq, Repr

/-- One active evaluation. -/
structure Frame where
  /-- The resolved path. -/
  cacheKey : String
  /-- The number of `require`'s module object, and that of `wrapModule`'s. -/
  record : ℕ
  wrapper : ℕ
  /-- The statements still to be carried out. -/
  rest : List Stmt
  results : List Value := []
  /-- The nested require in progress is inside of a `try`. -/
  catching : Bool := false
  /-- The text of what the body has thrown. -/
  thrown : Option String := none
  origin : Origin := .direct
deriving DecidableEq, Repr

/-- The module object that `require` caches and reads the exports of. -/
def Frame.moduleObj (f : Frame) : Address := ⟨.require, f.record, .module⟩

/-- The module object that `wrapModule` hands to the body. -/
def Frame.wrappedObj (f : Frame) : Address := ⟨.wrapModule, f.wrapper, .module⟩

/-- One call of `require`, with the path it was resolved from. -/
structure Request where
  /-- The resolved path of the calling module; the main script has none. -/
  requester : Option String
  specifier : String
  fromPath : String
deriving DecidableEq, Repr

structure State where
  /-- The global `__filename`. -/
  globalFilename : Option String
  heap : Address → String → Option Value := fun _ _ => none
  /-- How many allocations there have been. -/
  allocated : ℕ := 0
  moduleCache : String → Option Value := fun _ => none
  /-- The active evaluations, innermost first. -/
  frames : List Frame := []
  /-- What the main script's requires have returned or thrown. -/
  answers : List (Except String Value) := []
  requests : List Request := []
  /-- The evaluations that have ended, latest first, and whether they completed. -/
  ended : List (String × Bool) := []

namespace State

variable (s : State)

def cache (key : String) (value : Option Value) : State :=
  { s with moduleCache := Function.update s.moduleCache key value }

def write (address : Address) (name : String) (value : Value) : State :=
  { s with
    heap := Function.update s.heap address (Function.update (s.heap address) name (some value)) }

/-- A new object with the properties given. -/
def allocate (address : Address) (properties : List (String × Value)) : State :=
  { s with heap := Function.update s.heap address fun name => properties.lookup name }

def setTop (f : Frame) : State := { s with frames := f :: s.frames.tail }

/-- The path that `requireImpl` resolves from: the global `__filename`. -/
def fromPath : String := s.globalFilename.getD "."

/-- The resolved paths under evaluation. -/
def active : List String := s.frames.map Frame.cacheKey

/-- Note a call of `require`. -/
def request (specifier : String) : State :=
  { s with requests := s.requests ++ [⟨s.active.head?, specifier, s.fromPath⟩] }

end State

def moduleProperties (site : Site) (number : ℕ) (filePath : String) : List (String × Value) :=
  [("exports", .object ⟨site, number, .exports⟩), ("id", .string filePath),
    ("filename", .string filePath), ("loaded", .boolean false),
    ("children", .object ⟨site, number, .children⟩), ("parent", .null)]

/-- A module object with its exports and its children; its number is the one before. -/
def createModuleObject (s : State) (site : Site) (filePath : String) : State :=
  let children := s.allocate ⟨site, s.allocated, .children⟩ []
  let exports := children.allocate ⟨site, s.allocated, .exports⟩ []
  let module := exports.allocate ⟨site, s.allocated, .module⟩
    (moduleProperties site s.allocated filePath)
  { module with allocated := s.allocated + 1 }

/-- Another object; its number is the one before. -/
def createObject (s : State) (site : Site) (properties : List (String × Value)) : State :=
  { s.allocate ⟨site, s.allocated, .plain⟩ properties with allocated := s.allocated + 1 }

/-- Hand the outcome of a require to the innermost body, or to the main script. -/
def deliver (s : State) (outcome : Except String Value) : State :=
  match s.frames with
  | [] => { s with answers := s.answers ++ [outcome] }
  | f :: _ =>
    match outcome with
    | .ok value => s.setTop { f with results := f.results ++ [value] }
    | .error text =>
      if f.catching then s.setTop { f with results := f.results ++ [.undefined] }
      else s.setTop { f with thrown := some text }

def isBareSpecifier (specifier : String) : Bool :=
  !specifier.isEmpty && !startsIn "." specifier && !startsIn "/" specifier

/-- How `require` goes on. -/
inductive Answer where
  | value (v : Value)
  | thrown (text : String)
  /-- Evaluate the source that the file holds. -/
  | evaluate (cacheKey source : String)
deriving DecidableEq, Repr

section Require

variable (env : Environment)

/-- Load a shared library and run its init function. -/
def requireNative (s : State) (cacheKey : String) : State × Answer :=
  if ¬env.loadLibrary cacheKey then (s, .thrown ("Cannot load native module: " ++ cacheKey))
  else if ¬env.hasProtoContext then
    (s, .thrown "Native module load: ProtoContext not available")
  else
    let created := createModuleObject s .native cacheKey
    match env.initializeModule cacheKey with
    | .error text => (created, .thrown text)
    | .ok exports => (created.cache cacheKey (some (.foreign exports)), .value (.foreign exports))

/-- The file-based part of `require`. -/
def requireFile (s : State) (specifier fromPath : String) : State × Answer :=
  let resolved := resolve env.fileSystem specifier fromPath
  if resolved.filePath = "" then (s, .thrown ("Cannot find module: " ++ specifier))
  else
    match s.moduleCache resolved.filePath with
    | some value => (s, .value value)
    | none =>
      if resolved.type = .native then requireNative env s resolved.filePath
      else
        match env.fileSystem.readFile resolved.filePath with
        | none => (s, .thrown ("Cannot open module: " ++ resolved.filePath))
        | some source => (s, .evaluate resolved.filePath source)

/-- The exports of a built-in module, read off the global object. -/
def builtinExports (s : State) (specifier : String) : Option (State × Value) :=
  if specifier = "buffer" then
    (env.globalProperty "Buffer").map fun buffer =>
      (createObject s .builtin [("Buffer", .foreign buffer)],
        .object ⟨.builtin, s.allocated, .plain⟩)
  else (env.globalProperty specifier).map fun builtin => (s, .foreign builtin)

def requireBuiltin (s : State) (specifier fromPath : String) : State × Answer :=
  match builtinExports env s specifier with
  | none => requireFile env s specifier fromPath
  | some (created, builtin) =>
    match s.moduleCache ("builtin:" ++ specifier) with
    | some value => (created, .value value)
    | none => (created.cache ("builtin:" ++ specifier) (some builtin), .value builtin)

/-- `require`, up to the evaluation of a source. -/
def require (s : State) (specifier fromPath : String) : State × Answer :=
  if ¬isBareSpecifier specifier then requireFile env s specifier fromPath
  else if env.hasProtoSpace && env.hasProtoContext then
    match s.moduleCache ("umd:" ++ specifier) with
    | some value => (s, .value value)
    | none =>
      match env.importModule specifier with
      | some exports =>
        (s.cache ("umd:" ++ specifier) (some (.foreign exports)), .value (.foreign exports))
      | none => requireBuiltin env s specifier fromPath
  else requireBuiltin env s specifier fromPath

/-- The objects of an evaluation: `require` creates and caches one module object, and `wrapModule`
creates the next one. -/
def createModuleObjects (s : State) (cacheKey : String) : State :=
  createModuleObject
    ((createModuleObject s .require cacheKey).cache cacheKey
      (some (.object ⟨.require, s.allocated, .module⟩)))
    .wrapModule cacheKey

/-- Create both module objects and evaluate the source. A syntax error takes the path out of the
cache at once. -/
def wrapModule (s : State) (cacheKey source : String) : State :=
  let created := createModuleObjects s cacheKey
  match env.evaluate source with
  | .error text =>
    deliver { created.cache cacheKey none with ended := (cacheKey, false) :: s.ended } (.error text)
  | .ok body =>
    { created with
      frames :=
        { cacheKey := cacheKey
          record := s.allocated
          wrapper := s.allocated + 1
          rest := body } :: s.frames }

/-- `requireImpl`: the path to resolve from is the global `__filename`, whoever calls. -/
def requireImpl (s : State) (argument : Option String) : State :=
  match argument with
  | none => deliver s (.error "require expects a module specifier")
  | some specifier =>
    match require env (s.request specifier) specifier s.fromPath with
    | (next, .value value) => deliver next (.ok value)
    | (next, .thrown text) => deliver next (.error text)
    | (next, .evaluate cacheKey source) => wrapModule env next cacheKey source

/-- Read a property; `none` is the exception that reading off `undefined` or `null` throws. -/
def getProperty (s : State) (value : Value) (name : String) : Option Value :=
  match value with
  | .undefined | .null => none
  | .object address =>
    match s.heap address name with
    | some value => some value
    | none => some (((env.inherited name).map .foreign).getD .undefined)
  | .foreign n => some (((env.foreignProperty n name).map .foreign).getD .undefined)
  -- the value of a require is never a boolean or a string
  | .boolean _ | .string _ => some .undefined

/-- Evaluate an expression of a body; `none` is an exception. -/
def evalExpr (s : State) (f : Frame) : Expr → State × Option Value
  | .literal n => (s, some (.foreign n))
  | .emptyObject => (createObject s .body [], some (.object ⟨.body, s.allocated, .plain⟩))
  | .exports => (s, some (.object ⟨.wrapModule, f.wrapper, .exports⟩))
  | .module => (s, some (.object f.wrappedObj))
  | .filename => (s, some (.string f.cacheKey))
  | .dirname => (s, some (.string (getDirectory f.cacheKey)))
  | .result index => (s, some (f.results.getD index .undefined))
  | .resultProperty index name => (s, getProperty env s (f.results.getD index .undefined) name)

/-- Where the value of an expression comes from. -/
def Expr.origin (f : Frame) : Expr → Origin
  | .resultProperty index name => .property (f.results.getD index .undefined) name
  | _ => .direct

/-- Carry out one statement of the innermost body; `f` is its frame after the statement. -/
def execute (s : State) (f : Frame) : Stmt → State
  | .assignExports name e =>
    match evalExpr env s f e with
    | (next, some value) => (next.setTop f).write ⟨.wrapModule, f.wrapper, .exports⟩ name value
    | (next, none) => next.setTop { f with thrown := some "cannot read property" }
  | .assignModule name e =>
    match evalExpr env s f e with
    | (next, some value) =>
      (next.setTop (if name = "exports" then { f with origin := e.origin f } else f)).write
        f.wrappedObj name value
    | (next, none) => next.setTop { f with thrown := some "cannot read property" }
  | .require argument caught => requireImpl env (s.setTop { f with catching := caught }) argument
  | .throw text => s.setTop { f with thrown := some text }

/-- The body has thrown: `wrapModule` returns the exception, and `require` takes the path out of
the cache. -/
def fail (s : State) (f : Frame) (text : String) : State :=
  let marked := s.write f.wrappedObj "loaded" (.boolean true)
  deliver
    { marked.cache f.cacheKey none with
      frames := s.frames.tail
      ended := (f.cacheKey, false) :: s.ended }
    (.error text)

/-- The body has finished: `require` caches and returns the exports of the module object it
created. -/
def complete (s : State) (f : Frame) : State :=
  let marked := s.write f.wrappedObj "loaded" (.boolean true)
  let exports := (marked.heap f.moduleObj "exports").getD .undefined
  deliver
    { marked.cache f.cacheKey (some exports) with
      frames := s.frames.tail
      ended := (f.cacheKey, true) :: s.ended }
    (.ok exports)

/-- One step of the innermost evaluation. -/
def run (s : State) : State :=
  match s.frames with
  | [] => s
  | f :: _ =>
    match f.thrown with
    | some text => fail s f text
    | none =>
      match f.rest with
      | [] => complete s f
      | stmt :: rest => execute env s { f with rest := rest } stmt

end Require

inductive Action where
  /-- The main script calls `require`. -/
  | require (argument : Option String)
  /-- The innermost evaluation goes on. -/
  | run
deriving DecidableEq, Repr

def Enabled (s : State) : Action → Prop
  | .require _ => s.frames = []
  | .run => s.frames ≠ []

instance (s : State) : DecidablePred (Enabled s)
  | .require _ => match found : s.frames with
    | [] => isTrue found
    | _ :: _ => isFalse (by simp [Enabled, found])
  | .run => match found : s.frames with
    | [] => isFalse (by simp [Enabled, found])
    | _ :: _ => isTrue (by simp [Enabled, found])

def next (env : Environment) (s : State) : Action → State
  | .require argument => requireImpl env s argument
  | .run => run env s

/-- The loader with an empty cache, after the main program has set the global `__filename`. -/
def loader (env : Environment) (globalFilename : Option String) : Machine State Action where
  initial := { globalFilename := globalFilename }
  Enabled := Enabled
  next := next env

instance (env : Environment) (globalFilename : Option String) (s : State) (a : Action) :
    Decidable ((loader env globalFilename).Enabled s a) :=
  inferInstanceAs (Decidable (Enabled s a))

end ProtoJS.Modules.CommonJSLoader
