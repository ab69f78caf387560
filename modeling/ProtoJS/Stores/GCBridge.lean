import ProtoJS.Machine.Mutex
import ProtoJS.Machine.Run

/-! # The bridge between JS values and ProtoObjects

`GCBridge` keeps, for every JS context, one sparse list with both directions of the mapping: under
the hash of a text made from a JS value an object that describes the mapping, and under the hash
of a ProtoObject the wrapper of a pointer to the JS value. protoCore is outside of the repository:
its sparse list is a finite map from hashes, an object of the bridge is its attributes, and the
hashes are parameters. The allocator's answer and the clock's are arguments of a call. All public
functions lock one static mutex.
-/

namespace ProtoJS.GCBridge

/-- The tags of QuickJS values. -/
inductive Tag where
  | bigInt
  | symbol
  | string
  | module
  | functionBytecode
  | object
  | int
  | bool
  | null
  | undefined
  | uninitialized
  | catchOffset
  | exception
  | float64
deriving DecidableEq, Repr

/-- The 16-byte `JSValue` of a 64-bit build: the payload union, then the tag. -/
structure JSValue where
  payload : BitVec 64
  tag : Tag
deriving DecidableEq, Repr

/-- `JS_NULL`. -/
def JSValue.null : JSValue := ⟨0, .null⟩

abbrev Pointer := BitVec 64

/-- The attributes that the bridge gives its objects; `π` are the ProtoObjects, `δ` the doubles. -/
inductive Attribute (π δ : Type) where
  | text (text : String)
  | object (reference : Option π)
  | boolean (value : Bool)
  | double (value : δ)
  /-- The wrapper of a pointer, as the text in it. -/
  | wrapper (externalPtr : String)
deriving DecidableEq, Repr

abbrev Object (π δ : Type) := String → Option (Attribute π δ)

variable {π δ χ η : Type}

def newObject : Object π δ := fun _ => none

def Object.setAttribute (object : Object π δ) (name : String) (value : Attribute π δ) :
    Object π δ := Function.update object name (some value)

/-- `attribute && attribute != PROTO_NONE && attribute->asBoolean()`. -/
def Object.flag (object : Object π δ) (name : String) : Bool :=
  match object name with
  | some (.boolean value) => value
  | _ => false

/-- What the bridge asks protoCore and the JS contexts `χ`. -/
structure Core (π δ χ η : Type) where
  /-- `PROTO_NONE`, which may be the null pointer. -/
  protoNone : Option π
  stringHash : String → η
  objectHash : π → η
  /-- The context has a wrapper with a ProtoContext. -/
  hasProtoContext : χ → Bool
  /-- How a double is printed. -/
  format : δ → String

/-- A sparse list of protoCore: a finite map from hashes. -/
abbrev Mappings (π δ η : Type) := AList fun _ : η => Object π δ

/-- The static map of the bridge, and the JS values it has allocated with `new`. -/
structure State (π δ χ η : Type) where
  contextMappings : AList fun _ : χ => Mappings π δ η := ∅
  cells : Pointer → Option JSValue := fun _ => none

/-- `JS_IsNull` or `JS_IsUndefined`. -/
def JSValue.isNullish (jsVal : JSValue) : Bool := jsVal.tag = .null || jsVal.tag = .undefined

def isActiveJSValue (jsVal : JSValue) : Bool := !jsVal.isNullish

/-- The first eight bytes of the value, read as an unsigned number. -/
def getJSValueTag (jsVal : JSValue) : ℕ := jsVal.payload.toNat

def createJSValueKey (jsVal : JSValue) : String := "jsval:" ++ toString (getJSValueTag jsVal)

/-- `std::hex`, `std::setfill('0')`, `std::setw(16)`. -/
def hex16 (pointer : Pointer) : String :=
  String.ofList ((List.range 16).reverse.map fun i => Nat.digitChar (pointer.toNat / 16 ^ i % 16))

def externalPtrText (pointer : Pointer) : String := "0x" ++ hex16 pointer

/-- The wrapper object with a pointer encoded in it as a text. -/
def createExternalPointerWrapper (pointer : Pointer) : Object π δ :=
  newObject.setAttribute "_externalPtr" (.text (externalPtrText pointer))

/-- Never finds the pointer in a wrapper; `0` is the null pointer. -/
def extractExternalPointer (_wrapper : Object π δ) : Pointer := 0

/-- The object as a non-null reference other than `PROTO_NONE`. -/
def Core.present [DecidableEq π] (core : Core π δ χ η) (reference : Option π) : Option π :=
  if reference = core.protoNone then none else reference

/-- The attribute `protoObj` of a mapping object, if it refers to an object. -/
def Core.protoObj [DecidableEq π] (core : Core π δ χ η) (mappingObj : Object π δ) : Option π :=
  match mappingObj "protoObj" with
  | some (.object reference) => core.present reference
  | _ => none

section Operations

variable [DecidableEq π] [DecidableEq χ] [DecidableEq η] (core : Core π δ χ η) (kind : MutexKind)

abbrev BridgeCall (π δ χ η : Type) := Call (State π δ χ η)

def State.getContextMappings (s : State π δ χ η) (ctx : χ) : Mappings π δ η :=
  (s.contextMappings.lookup ctx).getD ∅

def setContextMappings (ctx : χ) (mappings : Mappings π δ η) : BridgeCall π δ χ η Unit :=
  Call.modify fun s => { s with contextMappings := s.contextMappings.insert ctx mappings }

/-- `new JSValue(JS_DupValue(ctx, jsVal))`, with the address the allocator answers. -/
def newJSValue (address : Pointer) (jsVal : JSValue) : BridgeCall π δ χ η Unit :=
  Call.modify fun s => { s with cells := Function.update s.cells address (some jsVal) }

/-- `GCBridge::initialize`. -/
def initializeContext (ctx : χ) : BridgeCall π δ χ η Unit :=
  Call.withLock kind do
    if core.hasProtoContext ctx then setContextMappings ctx ∅ else pure ()

/-- The mapping object of `registerMapping`. -/
def strongMapping (jsVal : JSValue) (protoObj : Option π) (address : Pointer) (now : δ) :
    Object π δ :=
  newObject
    |>.setAttribute "jsValueTag" (.text (createJSValueKey jsVal))
    |>.setAttribute "protoObj" (.object protoObj)
    |>.setAttribute "isRoot" (.boolean false)
    |>.setAttribute "isWeakRef" (.boolean false)
    |>.setAttribute "createdTimestamp" (.double now)
    |>.setAttribute "_jsValueTag" (.text (toString (getJSValueTag jsVal)))
    |>.setAttribute "_jsValuePtr" (.wrapper (externalPtrText address))

/-- The mapping object of `registerWeakRef`. -/
def weakMapping (jsVal : JSValue) (protoObj : Option π) (address : Pointer) (now : δ) :
    Object π δ :=
  newObject
    |>.setAttribute "jsValueTag" (.text (createJSValueKey jsVal))
    |>.setAttribute "protoObj" (.object protoObj)
    |>.setAttribute "isRoot" (.boolean false)
    |>.setAttribute "isWeakRef" (.boolean true)
    |>.setAttribute "createdTimestamp" (.double now)
    |>.setAttribute "_jsValuePtr" (.wrapper (externalPtrText address))

mutual

def registerMapping (address : Pointer) (now : δ) (jsVal : JSValue) (protoObj : Option π)
    (ctx : χ) : ℕ → BridgeCall π δ χ η Unit
  | 0 => Call.never
  | stack + 1 =>
    match protoObj with
    | none => pure ()
    | some object =>
      if jsVal.isNullish then pure ()
      else Call.withLock kind do
        if core.hasProtoContext ctx then
          let ctxMappings := (← Call.get).getContextMappings ctx
          let jsKeyHash := core.stringHash (createJSValueKey jsVal)
          newJSValue address jsVal
          let newMappings := ctxMappings.insert jsKeyHash
            (strongMapping jsVal (some object) address now)
          setContextMappings ctx newMappings
          setContextMappings ctx
            (newMappings.insert (core.objectHash object) (createExternalPointerWrapper address))
          if isActiveJSValue jsVal then registerRoot address now jsVal protoObj ctx stack
          else pure ()
        else pure ()

def registerRoot (address : Pointer) (now : δ) (jsVal : JSValue) (protoObj : Option π) (ctx : χ) :
    ℕ → BridgeCall π δ χ η Unit
  | 0 => Call.never
  | stack + 1 => Call.withLock kind do
    if core.hasProtoContext ctx then
      let ctxMappings := (← Call.get).getContextMappings ctx
      let jsKeyHash := core.stringHash (createJSValueKey jsVal)
      match ctxMappings.lookup jsKeyHash with
      | some mappingObj =>
        setContextMappings ctx
          (ctxMappings.insert jsKeyHash (mappingObj.setAttribute "isRoot" (.boolean true)))
      | none =>
        registerMapping address now jsVal protoObj ctx stack
        registerRoot address now jsVal protoObj ctx stack
    else pure ()

end

def unregisterRoot (jsVal : JSValue) (ctx : χ) : BridgeCall π δ χ η Unit :=
  Call.withLock kind do
    if core.hasProtoContext ctx then
      let ctxMappings := (← Call.get).getContextMappings ctx
      let jsKeyHash := core.stringHash (createJSValueKey jsVal)
      match ctxMappings.lookup jsKeyHash with
      | some mappingObj =>
        setContextMappings ctx
          (ctxMappings.insert jsKeyHash (mappingObj.setAttribute "isRoot" (.boolean false)))
      | none => pure ()
    else pure ()

def unregisterMapping (jsVal : JSValue) (ctx : χ) : BridgeCall π δ χ η Unit :=
  Call.withLock kind do
    if core.hasProtoContext ctx then
      let ctxMappings := (← Call.get).getContextMappings ctx
      let jsKeyHash := core.stringHash (createJSValueKey jsVal)
      match ctxMappings.lookup jsKeyHash with
      | some mappingObj =>
        if mappingObj.flag "isRoot" then unregisterRoot core kind jsVal ctx else pure ()
        let newMappings := ctxMappings.erase jsKeyHash
        match core.protoObj mappingObj with
        | some storedProtoObj =>
          setContextMappings ctx (newMappings.erase (core.objectHash storedProtoObj))
        | none => setContextMappings ctx newMappings
      | none => pure ()
    else pure ()

def getProtoObject (jsVal : JSValue) (ctx : χ) : BridgeCall π δ χ η (Option π) :=
  Call.withLock kind do
    if core.hasProtoContext ctx then
      let ctxMappings := (← Call.get).getContextMappings ctx
      match ctxMappings.lookup (core.stringHash (createJSValueKey jsVal)) with
      | some mappingObj => pure (core.protoObj mappingObj)
      | none => pure none
    else pure none

def getJSValue (protoObj : π) (ctx : χ) : BridgeCall π δ χ η JSValue :=
  Call.withLock kind do
    if core.hasProtoContext ctx then
      let s ← Call.get
      match (s.getContextMappings ctx).lookup (core.objectHash protoObj) with
      | some jsValWrapper =>
        let jsValPtr := extractExternalPointer jsValWrapper
        if jsValPtr ≠ 0 then pure ((s.cells jsValPtr).getD .null) else pure .null
      | none => pure .null
    else pure .null

def registerWeakRef (address : Pointer) (now : δ) (jsVal : JSValue) (protoObj : Option π)
    (ctx : χ) : BridgeCall π δ χ η Unit :=
  Call.withLock kind do
    if core.hasProtoContext ctx then
      let ctxMappings := (← Call.get).getContextMappings ctx
      let jsKeyHash := core.stringHash (createJSValueKey jsVal)
      newJSValue address jsVal
      setContextMappings ctx (ctxMappings.insert jsKeyHash (weakMapping jsVal protoObj address now))
    else pure ()

def unregisterWeakRef (jsVal : JSValue) (ctx : χ) : BridgeCall π δ χ η Unit :=
  Call.withLock kind do
    if core.hasProtoContext ctx then
      let ctxMappings := (← Call.get).getContextMappings ctx
      let jsKeyHash := core.stringHash (createJSValueKey jsVal)
      match ctxMappings.lookup jsKeyHash with
      | some mappingObj =>
        if mappingObj.flag "isWeakRef" then setContextMappings ctx (ctxMappings.erase jsKeyHash)
        else pure ()
      | none => pure ()
    else pure ()

/-- The fields are null without a ProtoContext. -/
structure MemoryLeakReport (π δ : Type) where
  orphanedJSValues : Option (List (Attribute π δ)) := none
  orphanedProtoObjects : Option (List π) := none
  totalLeaks : Option ℕ := none
  leakAge : Option δ := none

/-- One turn of the loop of `detectLeaks` over the mapping objects. -/
def detectLeak [Zero δ] [Sub δ] [LT δ] [DecidableLT δ] (currentTime : δ)
    (found : List (Attribute π δ) × List π × δ) (mappingObj : Object π δ) :
    List (Attribute π δ) × List π × δ :=
  if mappingObj.flag "isRoot" then
    let timestamp := match mappingObj "createdTimestamp" with
      | some (.double timestamp) => timestamp
      | _ => 0
    match mappingObj "jsValueTag", core.protoObj mappingObj with
    | some jsValTag, some protoObj =>
      let age := currentTime - timestamp
      (found.1 ++ [jsValTag], found.2.1 ++ [protoObj], if found.2.2 < age then age else found.2.2)
    | _, _ => found
  else found

def detectLeaks [Zero δ] [Sub δ] [LT δ] [DecidableLT δ] (now : δ) (ctx : χ) :
    BridgeCall π δ χ η (MemoryLeakReport π δ) :=
  Call.withLock kind do
    if core.hasProtoContext ctx then
      let ctxMappings := (← Call.get).getContextMappings ctx
      let found := (ctxMappings.entries.map Sigma.snd).foldl (detectLeak core now) ([], [], 0)
      pure
        { orphanedJSValues := some found.1
          orphanedProtoObjects := some found.2.1
          totalLeaks := some found.1.length
          leakAge := some found.2.2 }
    else pure {}

/-- What `reportLeaks` prints of leaks. -/
def MemoryLeakReport.lines (format : δ → String) (report : MemoryLeakReport π δ)
    (totalLeaks : ℕ) : List String :=
  ["GCBridge: Memory leak detected! " ++ toString totalLeaks ++ " leaked objects.",
    "  Orphaned JSValues: " ++ toString (report.orphanedJSValues.getD []).length,
    "  Orphaned ProtoObjects: " ++ toString (report.orphanedProtoObjects.getD []).length,
    "  Oldest leak age: " ++ (report.leakAge.map format).getD "" ++ " seconds"]

/-- The lines that `reportLeaks` prints. -/
def reportLeaks [Zero δ] [Sub δ] [LT δ] [DecidableLT δ] (now : δ) (ctx : χ) :
    BridgeCall π δ χ η (List String) := do
  let report ← detectLeaks core kind now ctx
  match report.totalLeaks with
  | some totalLeaks =>
    if totalLeaks = 0 then pure ["GCBridge: No memory leaks detected."]
    else pure (report.lines core.format totalLeaks)
  | none => pure []

/-- The fields are null without a ProtoContext. -/
structure MemoryStats where
  totalJSValues : Option ℕ := none
  totalProtoObjects : Option ℕ := none
  registeredRoots : Option ℕ := none
  weakReferences : Option ℕ := none
  leakedObjects : Option ℕ := none
  memoryUsed : Option ℕ := none
  gcCycles : Option ℕ := none

def getMemoryStats [Zero δ] [Sub δ] [LT δ] [DecidableLT δ] (now : δ) (ctx : χ) :
    BridgeCall π δ χ η MemoryStats :=
  Call.withLock kind do
    if core.hasProtoContext ctx then
      let ctxMappings := (← Call.get).getContextMappings ctx
      let mappingObjs := ctxMappings.entries.map Sigma.snd
      let leakReport ← detectLeaks core kind now ctx
      pure
        { totalJSValues := some mappingObjs.length
          totalProtoObjects := some mappingObjs.length
          registeredRoots := some (mappingObjs.countP (·.flag "isRoot"))
          weakReferences := some (mappingObjs.countP (·.flag "isWeakRef"))
          leakedObjects := some (leakReport.totalLeaks.getD 0)
          memoryUsed := some 0
          gcCycles := some 0 }
    else pure {}

def cleanup (ctx : χ) : BridgeCall π δ χ η Unit :=
  Call.withLock kind do
    if core.hasProtoContext ctx then setContextMappings ctx ∅ else pure ()

/-- Goes through the roots and does nothing with them. -/
def scanRoots (_ctx : χ) : BridgeCall π δ χ η Unit := Call.withLock kind (pure ())

end Operations

/-- A call of a public function. -/
inductive Operation (π δ χ : Type) where
  | initializeContext (ctx : χ)
  | registerMapping (address : Pointer) (now : δ) (jsVal : JSValue) (protoObj : Option π) (ctx : χ)
  | unregisterMapping (jsVal : JSValue) (ctx : χ)
  | getProtoObject (jsVal : JSValue) (ctx : χ)
  | getJSValue (protoObj : π) (ctx : χ)
  | registerRoot (address : Pointer) (now : δ) (jsVal : JSValue) (protoObj : Option π) (ctx : χ)
  | unregisterRoot (jsVal : JSValue) (ctx : χ)
  | registerWeakRef (address : Pointer) (now : δ) (jsVal : JSValue) (protoObj : Option π) (ctx : χ)
  | unregisterWeakRef (jsVal : JSValue) (ctx : χ)
  | detectLeaks (now : δ) (ctx : χ)
  | reportLeaks (now : δ) (ctx : χ)
  | getMemoryStats (now : δ) (ctx : χ)
  | cleanup (ctx : χ)
  | scanRoots (ctx : χ)
deriving DecidableEq, Repr

variable [DecidableEq π] [DecidableEq χ] [DecidableEq η] [Zero δ] [Sub δ] [LT δ] [DecidableLT δ]

/-- The call with its result dropped, on a stack of the given depth. -/
def Operation.call (core : Core π δ χ η) (kind : MutexKind) (stack : ℕ) :
    Operation π δ χ → BridgeCall π δ χ η Unit
  | .initializeContext ctx => GCBridge.initializeContext core kind ctx
  | .registerMapping address now jsVal protoObj ctx =>
    GCBridge.registerMapping core kind address now jsVal protoObj ctx stack
  | .unregisterMapping jsVal ctx => GCBridge.unregisterMapping core kind jsVal ctx
  | .getProtoObject jsVal ctx => GCBridge.getProtoObject core kind jsVal ctx >>= fun _ => pure ()
  | .getJSValue protoObj ctx => GCBridge.getJSValue core kind protoObj ctx >>= fun _ => pure ()
  | .registerRoot address now jsVal protoObj ctx =>
    GCBridge.registerRoot core kind address now jsVal protoObj ctx stack
  | .unregisterRoot jsVal ctx => GCBridge.unregisterRoot core kind jsVal ctx
  | .registerWeakRef address now jsVal protoObj ctx =>
    GCBridge.registerWeakRef core kind address now jsVal protoObj ctx
  | .unregisterWeakRef jsVal ctx => GCBridge.unregisterWeakRef core kind jsVal ctx
  | .detectLeaks now ctx => GCBridge.detectLeaks core kind now ctx >>= fun _ => pure ()
  | .reportLeaks now ctx => GCBridge.reportLeaks core kind now ctx >>= fun _ => pure ()
  | .getMemoryStats now ctx => GCBridge.getMemoryStats core kind now ctx >>= fun _ => pure ()
  | .cleanup ctx => GCBridge.cleanup core kind ctx
  | .scanRoots ctx => GCBridge.scanRoots kind ctx

end ProtoJS.GCBridge
