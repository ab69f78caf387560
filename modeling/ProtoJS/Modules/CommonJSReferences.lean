import ProtoJS.Machine.Ownership
import ProtoJS.Modules.CommonJSLoader

/-! # Who releases what in the loader

`require`, `createModuleObject` and `wrapModule`, statement by statement, for the references they
hold. Every object and every string has a count. QuickJS hands over new references from
`JS_NewObject`, `JS_NewString`, `JS_DupValue`, `JS_GetPropertyStr` and `JS_GetGlobalObject`, takes
the value given to `JS_SetPropertyStr`, and releases one reference in `JS_FreeValue`. Evaluated
code, native modules and the conversion of protoCore objects are outside: they work on the memory
as they like and hand over the value they return. An object whose count falls to zero stays in the
memory as it is.
-/

namespace ProtoJS.Modules.CommonJSReferences

open ModuleResolver
open CommonJSLoader (isBareSpecifier)

inductive Value where
  | undefined
  | null
  | boolean (b : Bool)
  | number (n : ℤ)
  /-- `JS_EXCEPTION`. -/
  | exception
  /-- An object, a function or a string. -/
  | reference (r : ℕ)
deriving DecidableEq, Repr

/-- What `JS_FreeValue` of the value releases. -/
def Value.references : Value → Multiset ℕ
  | .reference r => {r}
  | _ => 0

structure Memory where
  /-- The next reference to be allocated. -/
  next : ℕ
  /-- The global object. -/
  global : ℕ
  count : ℕ → ℕ
  properties : ℕ → String → Option Value
  moduleCache : String → Option Value

namespace Memory

variable (m : Memory)

def property (object : Value) (name : String) : Value :=
  match object with
  | .reference r => (m.properties r name).getD .undefined
  | _ => .undefined

def retain : Value → Memory
  | .reference r => { m with count := Function.update m.count r (m.count r + 1) }
  | _ => m

def release : Value → Memory
  | .reference r => { m with count := Function.update m.count r (m.count r - 1) }
  | _ => m

/-- A new object without properties, or a string. -/
def allocate : Memory × Value :=
  ({ m with
      next := m.next + 1
      count := Function.update m.count m.next 1
      properties := Function.update m.properties m.next fun _ => none }, .reference m.next)

/-- The value is moved into the property, and what was there is released. -/
def setProperty (object : Value) (name : String) (value : Value) : Memory :=
  match object with
  | .reference r =>
    let old := m.release (m.property object name)
    { old with
      properties := Function.update old.properties r
        (Function.update (old.properties r) name (some value)) }
  | _ => m.release value

def cache (key : String) (value : Option Value) : Memory :=
  { m with moduleCache := Function.update m.moduleCache key value }

section Lemmas

variable {m : Memory} {object value : Value} {r s : ℕ} {name other : String}

@[simp] theorem allocate_next : m.allocate.1.next = m.next + 1 := rfl

@[simp] theorem allocate_value : m.allocate.2 = .reference m.next := rfl

@[simp] theorem allocate_count :
    m.allocate.1.count r = if r = m.next then 1 else m.count r := by
  simp [allocate, Function.update_apply]

@[simp] theorem allocate_property : m.allocate.1.property (.reference r) name =
    if r = m.next then .undefined else m.property (.reference r) name := by
  by_cases new : r = m.next <;> simp [allocate, property, new]

@[simp] theorem release_next : (m.release value).next = m.next := by
  cases value <;> rfl

@[simp] theorem release_properties : (m.release value).properties = m.properties := by
  cases value <;> rfl

@[simp] theorem release_count : (m.release value).count r =
    if value = .reference r then m.count r - 1 else m.count r := by
  cases value with
  | reference s =>
    by_cases here : r = s
    · simp [release, here]
    · simp [release, here, Ne.symm here]
  | _ => rfl

@[simp] theorem release_property : (m.release value).property object name =
    m.property object name := by
  cases object <;> simp [property]

@[simp] theorem setProperty_next : (m.setProperty object name value).next = m.next := by
  cases object <;> simp [setProperty]

@[simp] theorem setProperty_count : (m.setProperty (.reference r) name value).count s =
    (m.release (m.property (.reference r) name)).count s := rfl

@[simp] theorem setProperty_property :
    (m.setProperty (.reference r) name value).property (.reference r) other =
      if other = name then value else m.property (.reference r) other := by
  by_cases same : other = name <;> simp [setProperty, property, same]

@[simp] theorem retain_next : (m.retain value).next = m.next := by
  cases value <;> rfl

@[simp] theorem retain_property : (m.retain value).property object name =
    m.property object name := by
  cases value <;> rfl

/-- To retain and to release again is nothing. -/
@[simp] theorem release_retain : (m.retain value).release value = m := by
  cases value <;> simp [retain, release]

end Lemmas

end Memory

abbrev Program := Owning Memory ℕ

section Api

def newObject : Program Value := .foreign Value.references Memory.allocate

def newArray : Program Value := .foreign Value.references Memory.allocate

def newString (_text : String) : Program Value := .foreign Value.references Memory.allocate

def newCFunction (_name : String) : Program Value := .foreign Value.references Memory.allocate

def dupValue (value : Value) : Program Value :=
  .foreign Value.references fun m => (m.retain value, value)

def getGlobalObject : Program Value :=
  .foreign Value.references fun m => (m.retain (.reference m.global), .reference m.global)

def getPropertyStr (object : Value) (name : String) : Program Value :=
  .foreign Value.references fun m => (m.retain (m.property object name), m.property object name)

def setPropertyStr (object : Value) (name : String) (value : Value) : Program Unit := do
  Owning.give value.references
  Owning.modify fun m => m.setProperty object name value

def freeValue (value : Value) : Program Unit := do
  Owning.give value.references
  Owning.modify fun m => m.release value

/-- `moduleCache[key] = value`, which forgets what was there. -/
def setCache (key : String) (value : Value) : Program Unit := do
  Owning.give value.references
  Owning.modify fun m => m.cache key (some value)

/-- Take the value out of the cache, with the reference that the cache has. -/
def takeCache (key : String) : Program Value :=
  .foreign Value.references fun m => (m.cache key none, (m.moduleCache key).getD .undefined)

end Api

/-- Code outside of the loader. -/
structure Engine where
  fileSystem : FileSystem
  hasProtoSpace : Bool
  hasProtoContext : Bool
  /-- `getImportModule`, and the conversion of its exports if there are any. -/
  importModule : String → Memory → Memory × Option Value
  /-- `DynamicLibraryLoader::load`. -/
  loadLibrary : String → Bool
  /-- `DynamicLibraryLoader::initializeModule`. -/
  initializeModule : String → Value → Memory → Memory × Value
  /-- `JS_Eval` of a text under a file name. -/
  evaluate : String → String → Memory → Memory × Value
  /-- `JS_Call` of a function. -/
  call : Value → List Value → Memory → Memory × Value

/-- The function releases the exports object after it has moved it into its property. -/
def createModuleObject (filePath : String) : Program Value := do
  let moduleObj ← newObject
  let exportsObj ← newObject
  setPropertyStr moduleObj "exports" exportsObj
  setPropertyStr moduleObj "id" (← newString filePath)
  setPropertyStr moduleObj "filename" (← newString filePath)
  setPropertyStr moduleObj "loaded" (.boolean false)
  setPropertyStr moduleObj "children" (← newArray)
  setPropertyStr moduleObj "parent" .null
  freeValue exportsObj
  return moduleObj

section Functions

variable (engine : Engine)

def wrapModule (source filename : String) : Program Value := do
  let moduleObj ← .call Value.references (createModuleObject filename)
  let exportsObj ← getPropertyStr moduleObj "exports"
  let requireFunc ← newCFunction "require"
  let func ← .foreign Value.references (engine.evaluate
    ("(function(exports, require, module, __filename, __dirname) \x7b\n" ++ source ++ "\n\x7d);")
    filename)
  if func = .exception then do
    freeValue exportsObj
    freeValue moduleObj
    freeValue requireFunc
    return func
  else do
    let filenameArg ← newString filename
    let dirnameArg ← newString (getDirectory filename)
    let result ← .foreign Value.references
      (engine.call func [exportsObj, requireFunc, moduleObj, filenameArg, dirnameArg])
    setPropertyStr moduleObj "loaded" (.boolean true)
    freeValue func
    freeValue requireFunc
    freeValue filenameArg
    freeValue dirnameArg
    freeValue exportsObj
    freeValue moduleObj
    if result = .exception then return result
    else do
      freeValue result
      return .undefined

/-- Create the module object and cache it at once. -/
def cacheModule (filePath : String) : Program Value := do
  let moduleObj ← .call Value.references (createModuleObject filePath)
  setCache filePath (← dupValue moduleObj)
  return moduleObj

/-- The end of `require` for a JavaScript module: when the evaluation throws, the cache entry is
erased and the module object forgotten. -/
def requireJavaScript (filePath source : String) : Program Value := do
  let moduleObj ← cacheModule filePath
  let wrapped ← .call Value.references (wrapModule engine source filePath)
  if wrapped = .exception then do
    let _ ← takeCache filePath
    return wrapped
  else do
    let exports ← getPropertyStr moduleObj "exports"
    freeValue (← takeCache filePath)
    setCache filePath (← dupValue exports)
    freeValue wrapped
    freeValue moduleObj
    return exports

/-- The end of `require` for a native module. -/
def requireNative (filePath : String) : Program Value :=
  if ¬engine.loadLibrary filePath then return .exception
  else if ¬engine.hasProtoContext then return .exception
  else do
    let moduleObj ← .call Value.references (createModuleObject filePath)
    let exports ← .foreign Value.references (engine.initializeModule filePath moduleObj)
    freeValue moduleObj
    if exports = .exception then return exports
    else do
      setCache filePath (← dupValue exports)
      return exports

/-- `require` from the resolution of a file on. -/
def requireFile (specifier fromPath : String) : Program Value := do
  let resolved := resolve engine.fileSystem specifier fromPath
  if resolved.filePath = "" then return .exception
  else
    match ← Owning.inspect fun m => m.moduleCache resolved.filePath with
    | some value => dupValue value
    | none =>
      if resolved.type = .native then requireNative engine resolved.filePath
      else
        match engine.fileSystem.readFile resolved.filePath with
        | none => return .exception
        | some source => requireJavaScript engine resolved.filePath source

/-- The built-in module of a name: for `buffer` an object is made, and the value moved into it is
released once more. -/
def getBuiltin (specifier : String) (global_obj : Value) : Program Value :=
  if specifier = "buffer" then do
    let builtin ← getPropertyStr global_obj "Buffer"
    if builtin ≠ .undefined then do
      let exports ← newObject
      setPropertyStr exports "Buffer" builtin
      freeValue builtin
      return exports
    else return builtin
  else getPropertyStr global_obj specifier

/-- The exports of a built-in module, or what has been cached of them. -/
def cacheBuiltin (specifier : String) (builtin : Value) : Program Value := do
  match ← Owning.inspect fun m => m.moduleCache ("builtin:" ++ specifier) with
  | some value => do
    freeValue builtin
    dupValue value
  | none => do
    setCache ("builtin:" ++ specifier) (← dupValue builtin)
    return builtin

/-- `require` from the built-in modules on, for a bare specifier. -/
def requireBuiltin (specifier fromPath : String) : Program Value := do
  let global_obj ← getGlobalObject
  let builtin ← getBuiltin specifier global_obj
  freeValue global_obj
  if builtin ≠ .undefined then cacheBuiltin specifier builtin
  else requireFile engine specifier fromPath

def require (specifier fromPath : String) : Program Value :=
  if ¬isBareSpecifier specifier then requireFile engine specifier fromPath
  else if engine.hasProtoSpace && engine.hasProtoContext then do
    match ← Owning.inspect fun m => m.moduleCache ("umd:" ++ specifier) with
    | some value => dupValue value
    | none =>
      match ← .foreign (fun jsv => (jsv.map Value.references).getD 0)
        (engine.importModule specifier) with
      | none => requireBuiltin engine specifier fromPath
      | some jsv =>
        if jsv ≠ .exception then do
          setCache ("umd:" ++ specifier) (← dupValue jsv)
          return jsv
        else do
          freeValue jsv
          requireBuiltin engine specifier fromPath
  else requireBuiltin engine specifier fromPath

end Functions

open Owning

section Accounts

variable {before : Multiset ℕ} {engine : Engine} {value object : Value} {name key : String}

theorem accounts_move {change : Memory → Memory} (held : value.references ≤ before) :
    (do
      Owning.give value.references
      Owning.modify change : Program Unit).Accounts before
        fun _ => before - value.references :=
  (accounts_give held).bind fun _ => accounts_modify _

theorem accounts_setPropertyStr (held : value.references ≤ before) :
    (setPropertyStr object name value).Accounts before fun _ => before - value.references :=
  accounts_move held

theorem accounts_freeValue (held : value.references ≤ before) :
    (freeValue value).Accounts before fun _ => before - value.references :=
  accounts_move held

theorem accounts_setCache (held : value.references ≤ before) :
    (setCache key value).Accounts before fun _ => before - value.references :=
  accounts_move held

/-- The end of `wrapModule`, when nothing but the value of the call is left. -/
private theorem accounts_outcome {result : Value} (only : before = result.references) :
    (if result = .exception then return result
      else do
        freeValue result
        return .undefined : Program Value).Accounts before Value.references := by
  split
  · exact accounts_pure only
  · refine .bind (accounts_freeValue only.ge) fun _ => accounts_pure ?_
    rw [only, tsub_self]
    rfl

/-- `wrapModule` releases what it owns, whatever the evaluation and the call come to. -/
theorem balanced_wrapModule (source filename : String) (m : Memory) :
    (wrapModule engine source filename).Balanced Value.references m := by
  apply Accounts.balanced
  refine .bind (accounts_call _) fun moduleObj => ?_
  refine .bind (accounts_foreign _) fun exportsObj => ?_
  refine .bind (accounts_foreign _) fun requireFunc => ?_
  refine .bind (accounts_foreign _) fun func => ?_
  split
  · refine .bind (accounts_freeValue ?_) fun _ => .bind (accounts_freeValue ?_) fun _ =>
      .bind (accounts_freeValue ?_) fun _ => accounts_pure ?_
    all_goals
      simp only [Multiset.le_iff_count, Multiset.ext, Multiset.count_add, Multiset.count_sub,
        Multiset.count_zero]
      intro r
      omega
  · refine .bind (accounts_foreign _) fun filenameArg => ?_
    refine .bind (accounts_foreign _) fun dirnameArg => ?_
    refine .bind (accounts_foreign _) fun result => ?_
    refine .bind (accounts_setPropertyStr ?_) fun _ => .bind (accounts_freeValue ?_) fun _ =>
      .bind (accounts_freeValue ?_) fun _ => .bind (accounts_freeValue ?_) fun _ =>
      .bind (accounts_freeValue ?_) fun _ => .bind (accounts_freeValue ?_) fun _ =>
      .bind (accounts_freeValue ?_) fun _ => accounts_outcome ?_
    all_goals
      simp only [Multiset.le_iff_count, Multiset.ext, Multiset.count_add, Multiset.count_sub,
        Multiset.count_zero, Value.references]
      intro r
      omega

end Accounts

section CreateModuleObject

variable {filePath : String} {m : Memory}

/-- The exports object is no longer owned when it is released. -/
theorem not_balanced_createModuleObject :
    ¬(createModuleObject filePath).Balanced Value.references m := by
  rintro ⟨sound, _⟩
  simp only [createModuleObject, sound_bind_iff, run_bind, newObject, newString, newArray,
    setPropertyStr, freeValue, result_foreign, memory_foreign, owned_foreign, memory_give,
    owned_give, run_modify, sound_give_iff, Memory.allocate_value, Memory.allocate_next,
    Memory.setProperty_next, Value.references, add_tsub_cancel_right, tsub_zero, zero_add,
    Multiset.singleton_le, Multiset.mem_singleton] at sound
  omega

/-- And so the module object comes back with a property whose object has no reference left. -/
theorem exports_released :
    ((createModuleObject filePath).run { memory := m }).2.memory.property (.reference m.next)
        "exports" = .reference (m.next + 1) ∧
      ((createModuleObject filePath).run { memory := m }).2.memory.count (m.next + 1) = 0 := by
  simp [createModuleObject, newObject, newString, newArray, setPropertyStr, freeValue,
    Nat.add_assoc]

end CreateModuleObject

/-- The evaluation of a JavaScript module throws, once the module object is cached. -/
def EvaluationThrows (engine : Engine) (filePath source : String) (m : Memory) : Prop :=
  ((do
    let _ ← cacheModule filePath
    .call Value.references (wrapModule engine source filePath) : Program Value).run
      { memory := m }).1 = .exception

section Require

variable {engine : Engine} {filePath source specifier fromPath : String} {m : Memory}
  {before : Multiset ℕ}

theorem accounts_cacheModule (filePath : String) (before : Multiset ℕ) :
    (cacheModule filePath).Accounts before fun moduleObj => before + moduleObj.references := by
  refine .bind (accounts_call _) fun moduleObj => ?_
  refine .bind (accounts_foreign _) fun dup => ?_
  refine .bind (accounts_setCache (Multiset.le_add_left ..)) fun _ => accounts_pure ?_
  exact add_tsub_cancel_right ..

/-- For a JavaScript module `require` is balanced exactly if the evaluation does not throw: else
the module object is never released. -/
theorem balanced_requireJavaScript_iff :
    (requireJavaScript engine filePath source).Balanced Value.references m ↔
      ¬EvaluationThrows engine filePath source m := by
  obtain ⟨sound, owned⟩ := accounts_cacheModule filePath 0 { memory := m } rfl
  have value : ((cacheModule filePath).run { memory := m }).1 = .reference m.next := rfl
  rw [Owning.Balanced, requireJavaScript, settles_bind_iff, and_iff_right sound, settles_bind_iff,
    and_iff_right sound_call, EvaluationThrows, run_bind]
  split
  · rename_i thrown
    refine iff_of_false ?_ (not_not.mpr thrown)
    rintro ⟨_, settled⟩
    have left : ((cacheModule filePath).run { memory := m }).2.owned = {m.next} := by
      simp [owned, value, Value.references]
    have more := congrArg (Multiset.count m.next) settled
    simp only [run_bind, run_pure, takeCache, owned_foreign, owned_call, left, Multiset.count_add,
      Multiset.count_singleton_self] at more
    omega
  · rename_i returned
    refine iff_of_true (Accounts.settles ?_ rfl) returned
    rw [owned_call, owned]
    refine .bind (accounts_foreign _) fun exports => .bind (accounts_foreign _) fun cached =>
      .bind (accounts_freeValue ?_) fun _ => .bind (accounts_foreign _) fun dup =>
      .bind (accounts_setCache ?_) fun _ => .bind (accounts_freeValue ?_) fun _ =>
      .bind (accounts_freeValue ?_) fun _ => accounts_pure ?_
    all_goals
      simp only [Multiset.le_iff_count, Multiset.ext, Multiset.count_add, Multiset.count_sub,
        Multiset.count_zero]
      intro r
      omega

/-- A value is cached and returned. -/
private theorem accounts_cached {key : String} {value : Value} (only : before = value.references) :
    (do
      setCache key (← dupValue value)
      return value : Program Value).Accounts before Value.references := by
  refine .bind (accounts_foreign _) fun dup =>
    .bind (accounts_setCache ?_) fun _ => accounts_pure ?_
  · exact Multiset.le_add_left ..
  · rw [add_tsub_cancel_right, only]

/-- The module object of a native module is released. -/
theorem balanced_requireNative : (requireNative engine filePath).Balanced Value.references m := by
  apply Accounts.balanced
  unfold requireNative
  split
  · exact accounts_pure rfl
  · split
    · exact accounts_pure rfl
    · refine .bind (accounts_call _) fun moduleObj => .bind (accounts_foreign _) fun exports => ?_
      have released : 0 + moduleObj.references + exports.references - moduleObj.references =
          exports.references := by
        rw [zero_add, add_tsub_cancel_left]
      refine .bind (accounts_freeValue ?_) fun _ => ?_
      · rw [zero_add]
        exact Multiset.le_add_right ..
      · split
        · exact accounts_pure released
        · exact accounts_cached released

/-- The request leads to a JavaScript module that is not cached and whose evaluation throws. -/
def FileFails (engine : Engine) (specifier fromPath : String) (m : Memory) : Prop :=
  let resolved := resolve engine.fileSystem specifier fromPath
  resolved.filePath ≠ "" ∧ m.moduleCache resolved.filePath = none ∧ resolved.type ≠ .native ∧
    ∃ source, engine.fileSystem.readFile resolved.filePath = some source ∧
      EvaluationThrows engine resolved.filePath source m

theorem accounts_dupValue (value : Value) :
    (dupValue value).Accounts 0 Value.references := by
  intro l owned
  exact ⟨rfl, by rw [dupValue, owned_foreign, owned, zero_add]; rfl⟩

theorem balanced_requireFile_iff :
    (requireFile engine specifier fromPath).Balanced Value.references m ↔
      ¬FileFails engine specifier fromPath m := by
  have none_ : (return .exception : Program Value).Balanced Value.references m :=
    (accounts_pure rfl : Accounts _ 0 _).balanced m
  rw [FileFails, requireFile]
  split
  · rename_i missing
    exact iff_of_true none_ (by simp [missing])
  · rename_i found
    rw [Owning.Balanced, settles_bind_iff, and_iff_right (sound_inspect _), run_inspect]
    cases cached : m.moduleCache (resolve engine.fileSystem specifier fromPath).filePath with
    | some value => exact iff_of_true ((accounts_dupValue value).settles rfl) (by simp)
    | none =>
      simp only
      split
      · rename_i isNative
        exact iff_of_true balanced_requireNative (by simp [isNative])
      · rename_i script
        split
        · rename_i closed
          exact iff_of_true none_ (by simp [closed])
        · rename_i source opened
          rw [← Owning.Balanced, balanced_requireJavaScript_iff]
          simp [found, script, opened]

/-- The property of the global object that a built-in module is read off. -/
def Memory.builtin (m : Memory) (specifier : String) : Value :=
  m.property (.reference m.global) (if specifier = "buffer" then "Buffer" else specifier)

/-- The request is for `buffer`, and an object is the global `Buffer`; or there is no built-in
module of the name. -/
def BuiltinFails (engine : Engine) (specifier fromPath : String) (m : Memory) : Prop :=
  if m.builtin specifier = .undefined then FileFails engine specifier fromPath m
  else specifier = "buffer" ∧ ∃ r, m.builtin specifier = .reference r

private theorem settles_cacheBuiltin {builtin : Value} {l : Ledger Memory ℕ}
    (owned : l.owned = builtin.references) :
    (cacheBuiltin specifier builtin).Settles Value.references l := by
  rw [cacheBuiltin, settles_bind_iff, and_iff_right (sound_inspect _), run_inspect]
  cases l.memory.moduleCache ("builtin:" ++ specifier) with
  | some value =>
    refine Accounts.settles (.bind (accounts_freeValue owned.ge) fun _ => ?_) rfl
    rw [owned, tsub_self]
    exact accounts_dupValue value
  | none => exact (accounts_cached owned).settles rfl

private theorem owned_of_settles {builtin : Value} {l : Ledger Memory ℕ}
    (settles : (cacheBuiltin specifier builtin).Settles Value.references l) :
    builtin.references ≤ l.owned := by
  rw [cacheBuiltin, settles_bind_iff, and_iff_right (sound_inspect _), run_inspect] at settles
  cases cached : l.memory.moduleCache ("builtin:" ++ specifier) with
  | some value =>
    simp only [cached, settles_bind_iff, freeValue, sound_bind_iff, sound_give_iff] at settles
    exact settles.1.1
  | none =>
    simp only [cached, settles_bind_iff, settles_pure_iff, dupValue, setCache, run_bind, owned_give,
      result_foreign, owned_foreign, run_modify, add_tsub_cancel_right] at settles
    exact settles.2.2.ge

/-- Without a property of the name nothing is read off the global object. -/
private theorem getBuiltin_undefined {object : Value} {l : Ledger Memory ℕ}
    (missing : l.memory.property object (if specifier = "buffer" then "Buffer" else specifier) =
      .undefined) : (getBuiltin specifier object).run l = (.undefined, l) := by
  have nothing (name : String) (missing : l.memory.property object name = .undefined) :
      (getPropertyStr object name).run l = (.undefined, l) := by
    simp [getPropertyStr, foreign, missing, Memory.retain, Value.references]
  rw [getBuiltin]
  split
  · rename_i isBuffer
    rw [if_pos isBuffer] at missing
    simp [nothing _ missing]
  · rename_i other
    rw [if_neg other] at missing
    exact nothing _ missing

/-- Any other built-in module is read off, and owned. -/
private theorem accounts_getBuiltin {object : Value} {l : Ledger Memory ℕ}
    (sound : specifier = "buffer" → (l.memory.property object "Buffer").references = 0) :
    (getBuiltin specifier object).Sound l ∧ ((getBuiltin specifier object).run l).2.owned =
      l.owned + ((getBuiltin specifier object).run l).1.references := by
  rw [getBuiltin]
  split
  · rename_i isBuffer
    rw [sound_bind_iff, run_bind]
    split
    · simp [getPropertyStr, newObject, setPropertyStr, freeValue, sound_bind_iff, sound isBuffer]
    · simp [getPropertyStr]
  · exact ⟨rfl, rfl⟩

private theorem getBuiltin_defined {object : Value} {l : Ledger Memory ℕ}
    (there : l.memory.property object (if specifier = "buffer" then "Buffer" else specifier) ≠
      .undefined) : ((getBuiltin specifier object).run l).1 ≠ .undefined := by
  rw [getBuiltin]
  split
  · rename_i isBuffer
    rw [if_pos isBuffer] at there
    simp [getPropertyStr, newObject, there]
  · rename_i other
    rw [if_neg other] at there
    exact there

/-- The ledger with the global object. -/
private def globalLedger (m : Memory) : Ledger Memory ℕ where
  memory := m.retain (.reference m.global)
  owned := {m.global}

private theorem run_getGlobalObject : getGlobalObject.run { memory := m } =
    (.reference m.global, globalLedger m) := by
  simp [getGlobalObject, foreign, globalLedger, Value.references]

private theorem run_freeGlobal :
    (freeValue (.reference m.global)).run (globalLedger m) = ((), { memory := m }) := by
  simp [freeValue, give, globalLedger, Value.references]

/-- The object in the global `Buffer` is given away twice: nothing is left of the new object. -/
private theorem getBuiltin_buffer {object : Value} {l : Ledger Memory ℕ} {r : ℕ}
    (found : l.memory.property object "Buffer" = .reference r)
    (sound : (getBuiltin "buffer" object).Sound l) :
    ((getBuiltin "buffer" object).run l).1 = .reference l.memory.next ∧
      ((getBuiltin "buffer" object).run l).2.owned.card = l.owned.card := by
  simp only [getBuiltin, if_true, sound_bind_iff, run_bind, getPropertyStr, newObject,
    setPropertyStr, freeValue, found, result_foreign, memory_foreign, owned_foreign, sound_foreign,
    sound_give_iff, sound_modify, sound_pure, ne_eq, reduceCtorEq, not_false_eq_true, run_modify,
    owned_give, run_pure, Value.references, Memory.allocate_value, Memory.retain_next, true_and,
    and_true] at sound ⊢
  rw [Multiset.card_sub sound.2, Multiset.card_sub sound.1]
  simp

private theorem property_builtin : (globalLedger m).memory.property (.reference m.global)
    (if specifier = "buffer" then "Buffer" else specifier) = m.builtin specifier := by
  rw [globalLedger, Memory.retain_property, Memory.builtin]

/-- What `requireBuiltin` does with the global object. -/
private def serve (engine : Engine) (specifier fromPath : String) (global_obj : Value) :
    Program Value := do
  let builtin ← getBuiltin specifier global_obj
  freeValue global_obj
  if builtin ≠ .undefined then cacheBuiltin specifier builtin
  else requireFile engine specifier fromPath

private theorem not_settles_buffer {r : ℕ} (found : m.builtin "buffer" = .reference r) :
    ¬(serve engine "buffer" fromPath (.reference m.global)).Settles Value.references
      (globalLedger m) := by
  intro settles
  obtain ⟨sound, settles⟩ := settles_bind_iff.mp settles
  obtain ⟨value, card⟩ := getBuiltin_buffer (property_builtin.trans found) sound
  obtain ⟨released, settles⟩ := settles_bind_iff.mp settles
  rw [value, if_pos (by simp)] at settles
  -- the global object takes the only reference that is left
  have one : (globalLedger m).owned.card = 1 := rfl
  have last := Multiset.card_le_card (owned_of_settles settles)
  simp only [freeValue, sound_bind_iff, sound_give_iff, Value.references] at released
  simp only [freeValue, run_bind, run_modify, owned_give, Value.references,
    Multiset.card_sub released.1, card, Multiset.card_singleton, one] at last
  omega

private theorem settles_builtin (there : m.builtin specifier ≠ .undefined)
    (plain : specifier = "buffer" → (m.builtin specifier).references = 0) :
    (serve engine specifier fromPath (.reference m.global)).Settles Value.references
      (globalLedger m) := by
  have property : _ = m.builtin specifier := property_builtin
  have loose : specifier = "buffer" →
      ((globalLedger m).memory.property (.reference m.global) "Buffer").references = 0 := by
    intro isBuffer
    rw [if_pos isBuffer] at property
    rw [property]
    exact plain isBuffer
  obtain ⟨sound, owned⟩ := accounts_getBuiltin loose
  have defined := getBuiltin_defined (property.symm ▸ there)
  generalize ran : (getBuiltin specifier (.reference m.global)).run (globalLedger m) = answer
    at owned defined
  refine settles_bind_iff.mpr ⟨sound, ?_⟩
  rw [ran, if_pos defined]
  have left : answer.2.owned =
      (Value.reference m.global).references + answer.1.references := owned
  have held : (Value.reference m.global).references ≤ answer.2.owned := by
    rw [left]
    exact Multiset.le_add_right ..
  obtain ⟨released, remains⟩ := accounts_freeValue held answer.2 rfl
  refine settles_bind_iff.mpr ⟨released, settles_cacheBuiltin ?_⟩
  rw [remains, left, add_tsub_cancel_left]

/-- Of the built-in modules only a `buffer` with an object in it is not balanced. -/
theorem balanced_requireBuiltin_iff :
    (requireBuiltin engine specifier fromPath).Balanced Value.references m ↔
      ¬BuiltinFails engine specifier fromPath m := by
  have whole : (requireBuiltin engine specifier fromPath).Balanced Value.references m ↔
      (serve engine specifier fromPath (.reference m.global)).Settles Value.references
        (globalLedger m) := by
    rw [requireBuiltin, Owning.Balanced, settles_bind_iff,
      and_iff_right (show getGlobalObject.Sound _ from rfl), run_getGlobalObject]
    rfl
  rw [whole, BuiltinFails]
  by_cases missing : m.builtin specifier = .undefined
  · have nothing := getBuiltin_undefined (property_builtin.trans missing)
    rw [if_pos missing, serve, settles_bind_iff, Sound, nothing, and_iff_right rfl,
      settles_bind_iff, and_iff_right (by rw [Sound, run_freeGlobal]; rfl), run_freeGlobal]
    exact balanced_requireFile_iff
  · rw [if_neg missing]
    by_cases counted : specifier = "buffer" ∧ ∃ r, m.builtin specifier = .reference r
    · obtain ⟨rfl, r, found⟩ := counted
      exact iff_of_false (not_settles_buffer found) (not_not.mpr ⟨rfl, r, found⟩)
    · refine iff_of_true (settles_builtin missing fun isBuffer => ?_) counted
      cases read : m.builtin specifier with
      | reference r => exact absurd ⟨isBuffer, r, read⟩ counted
      | _ => rfl

/-- The request leads to `buffer` with an object in the global `Buffer`, or to a JavaScript module
whose evaluation throws. -/
def RequireFails (engine : Engine) (specifier fromPath : String) (m : Memory) : Prop :=
  if ¬isBareSpecifier specifier then FileFails engine specifier fromPath m
  else if engine.hasProtoSpace && engine.hasProtoContext then
    match m.moduleCache ("umd:" ++ specifier) with
    | some _ => False
    | none =>
      match (engine.importModule specifier m).2 with
      | none => BuiltinFails engine specifier fromPath (engine.importModule specifier m).1
      | some jsv => jsv = .exception ∧
          BuiltinFails engine specifier fromPath (engine.importModule specifier m).1
  else BuiltinFails engine specifier fromPath m

private theorem run_freeException {l : Ledger Memory ℕ} :
    (freeValue .exception).run l = ((), l) := by
  simp [freeValue, give, Value.references, Memory.release]

theorem balanced_require_iff :
    (require engine specifier fromPath).Balanced Value.references m ↔
      ¬RequireFails engine specifier fromPath m := by
  rw [require, RequireFails]
  split
  · exact balanced_requireFile_iff
  · split
    · rw [Owning.Balanced, settles_bind_iff, and_iff_right (sound_inspect _), run_inspect]
      cases cached : m.moduleCache ("umd:" ++ specifier) with
      | some value => exact iff_of_true ((accounts_dupValue value).settles rfl) not_false
      | none =>
        rw [settles_bind_iff, and_iff_right (sound_foreign _), result_foreign]
        cases imported : (engine.importModule specifier m).2 with
        | none =>
          have nothing : ((foreign (fun jsv => (jsv.map Value.references).getD 0)
              (engine.importModule specifier)).run { memory := m }).2 =
                { memory := (engine.importModule specifier m).1 } := by
            simp [foreign, imported]
          rw [nothing]
          exact balanced_requireBuiltin_iff
        | some jsv =>
          by_cases thrown : jsv = .exception
          · subst thrown
            have nothing : ((foreign (fun jsv => (jsv.map Value.references).getD 0)
                (engine.importModule specifier)).run { memory := m }).2 =
                  { memory := (engine.importModule specifier m).1 } := by
              simp [foreign, imported, Value.references]
            rw [nothing]
            simp only [ne_eq, not_true_eq_false, if_false, true_and]
            rw [settles_bind_iff, run_freeException,
              and_iff_right (by rw [Sound, run_freeException])]
            exact balanced_requireBuiltin_iff
          · simp only [ne_eq, thrown, not_false_eq_true, if_true, false_and, iff_true]
            apply Accounts.settles (accounts_cached rfl)
            simp [imported]
    · exact balanced_requireBuiltin_iff

end Require

/-- A call of one of the three functions. -/
inductive Request where
  | require (specifier fromPath : String)
  | createModuleObject (filePath : String)
  | wrapModule (source filename : String)
deriving DecidableEq, Repr

def Request.program (engine : Engine) : Request → Program Value
  | .require specifier fromPath => CommonJSReferences.require engine specifier fromPath
  | .createModuleObject filePath => CommonJSReferences.createModuleObject filePath
  | .wrapModule source filename => CommonJSReferences.wrapModule engine source filename

/-- The function releases only what it owns and owns nothing but its result in the end; and the
exports object of a module object that is returned has a reference left. -/
def Request.KeepsReferences (engine : Engine) (m : Memory) (request : Request) : Prop :=
  (request.program engine).Balanced Value.references m ∧
    ∀ filePath, request = .createModuleObject filePath →
      let answer := (request.program engine).run { memory := m }
      ∀ r, answer.2.memory.property answer.1 "exports" = .reference r → 0 < answer.2.memory.count r

/-- Where the references of a call are kept. -/
def Request.Careful (engine : Engine) (m : Memory) : Request → Prop
  | .require specifier fromPath => ¬RequireFails engine specifier fromPath m
  | .createModuleObject _ => False
  | .wrapModule _ _ => True

/-- `wrapModule` always keeps its references in balance, `createModuleObject` never, and `require`
unless it hands out a `buffer` made of an object or the evaluation of a module throws. -/
theorem keepsReferences_iff (engine : Engine) (m : Memory) (request : Request) :
    request.KeepsReferences engine m ↔ request.Careful engine m := by
  cases request with
  | require specifier fromPath =>
    rw [Request.KeepsReferences, and_iff_left (by simp)]
    exact balanced_require_iff
  | createModuleObject filePath =>
    exact iff_of_false (fun kept => not_balanced_createModuleObject kept.1) not_false
  | wrapModule source filename =>
    exact iff_of_true ⟨balanced_wrapModule source filename m, by simp⟩ trivial

section Requests

/-- One file, whose evaluation throws. -/
def throwing : Engine where
  fileSystem := .ofFiles [("/app/a.js", "")] ["/app"]
  hasProtoSpace := true
  hasProtoContext := true
  importModule _ m := (m, none)
  loadLibrary _ := false
  initializeModule _ _ m := (m, .exception)
  evaluate _ _ m := (m, .exception)
  call _ _ m := (m, .exception)

/-- The global object, with `Buffer` as its property. -/
def globals : Memory where
  next := 2
  global := 0
  count _ := 1
  properties r name := if r = 0 ∧ name = "Buffer" then some (.reference 1) else none
  moduleCache _ := none

/-- A module object comes back with its exports released, the object in `Buffer` is released with
the property that holds it, and the module object of a failed evaluation is forgotten. -/
theorem references_lost :
    ¬(Request.createModuleObject "/app/a.js").KeepsReferences throwing globals ∧
    ((createModuleObject "/app/a.js").run { memory := globals }).2.memory.count 3 = 0 ∧
    ¬(Request.require "buffer" "/app").KeepsReferences throwing globals ∧
    ¬(Request.require "/app/a.js" "/app").KeepsReferences throwing globals := by
  refine ⟨fun kept => not_balanced_createModuleObject kept.1, exports_released.2, ?_, ?_⟩
  · rintro ⟨balanced, _⟩
    apply balanced_require_iff.mp balanced
    refine ⟨rfl, 1, rfl⟩
  · rintro ⟨balanced, _⟩
    apply balanced_require_iff.mp balanced
    refine ⟨by decide, rfl, by decide, "", by decide, ?_⟩
    rfl

end Requests

end ProtoJS.Modules.CommonJSReferences
