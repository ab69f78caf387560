import ProtoJS.Strings.CString

/-! # File operations on the I/O pool

Each function of `io` and of `fs.promises` converts its arguments, hands a task to the I/O pool
and keeps the future. The two blocking functions of `io` wait for the outcome in the call itself.
The others enqueue a callback that waits for it in the event loop and then calls `resolve`, or
`reject` where the function has one: the functions of `fs.promises` hand an error to `resolve` too.
-/

namespace ProtoJS.Files

open Strings

abbrev Bytes := List UInt8

/-- The lambdas that are submitted, with what they have captured. -/
inductive Task where
  | readFile (filePath : Bytes)
  | writeFile (filePath fileContent : Bytes)
  | readdir (dirPath : Bytes)
  | mkdir (dirPath : Bytes)
  | stat (filePath : Bytes)
deriving DecidableEq, Repr

/-- The fields of `struct stat` that are read. -/
structure Stat where
  st_size : ℤ
  st_mode : ℕ
  st_mtime : ℤ
deriving DecidableEq, Repr

inductive Value where
  | content (bytes : Bytes)
  | good (success : Bool)
  | entries (names : List Bytes)
  | stat (st : Stat)
deriving DecidableEq, Repr

/-- What a future holds: the value of its task, or the text of the exception. -/
abbrev Outcome := Except Bytes Value

/-- The outcomes that the code of a task leaves open, whatever the file system does. -/
def Task.MayEnd : Task → Outcome → Prop
  | .readFile filePath, .error what => what = utf8 "Could not open file: " ++ filePath
  | .readFile _, .ok (.content _) => True
  | .writeFile filePath _, .error what =>
    what = utf8 "Could not open file for writing: " ++ filePath
  | .writeFile _ _, .ok (.good _) => True
  | .readdir _, .error _ => True
  | .readdir _, .ok (.entries _) => True
  -- the task of `mkdir` catches everything
  | .mkdir _, .ok (.good _) => True
  | .stat _, .error what => what = utf8 "Cannot stat file"
  | .stat _, .ok (.stat _) => True
  | _, _ => False

instance : ∀ (task : Task) (outcome : Outcome), Decidable (task.MayEnd outcome)
  | .readFile _, .error _ | .writeFile _ _, .error _ | .stat _, .error _ =>
    inferInstanceAs (Decidable (_ = _))
  | .readFile _, .ok (.content _) | .writeFile _ _, .ok (.good _) | .readdir _, .error _
  | .readdir _, .ok (.entries _) | .mkdir _, .ok (.good _) | .stat _, .ok (.stat _) =>
    inferInstanceAs (Decidable True)
  | .mkdir _, .error _ | .readFile _, .ok (.good _) | .readFile _, .ok (.entries _)
  | .readFile _, .ok (.stat _) | .writeFile _ _, .ok (.content _) | .writeFile _ _, .ok (.entries _)
  | .writeFile _ _, .ok (.stat _) | .readdir _, .ok (.content _) | .readdir _, .ok (.good _)
  | .readdir _, .ok (.stat _) | .mkdir _, .ok (.content _) | .mkdir _, .ok (.entries _)
  | .mkdir _, .ok (.stat _) | .stat _, .ok (.content _) | .stat _, .ok (.good _)
  | .stat _, .ok (.entries _) => inferInstanceAs (Decidable False)

/-- How the function that submitted a task gets at its outcome. -/
inductive Delivery where
  /-- `future.get()` in the call itself; the name begins the message of an error. -/
  | blocking (name : String)
  /-- In a callback that hands errors to `reject`. -/
  | rejecting
  /-- In a callback that has `resolve` alone. -/
  | resolving
deriving DecidableEq, Repr

structure Operation where
  task : Task
  delivery : Delivery
deriving DecidableEq, Repr

/-- The outcome is delivered by the event loop. -/
def Operation.isAsync (operation : Operation) : Bool :=
  match operation.delivery with
  | .blocking _ => false
  | .rejecting | .resolving => true

section Functions

/-- What a function throws before it submits anything. -/
inductive Thrown where
  | typeError (message : String)
  /-- The exception that the conversion of an argument has left. -/
  | pending
deriving DecidableEq, Repr

/-- The texts the arguments convert to, none where the conversion throws. -/
abbrev Arguments := List (Option String)

/-- `JS_ToCString` of an argument, copied to a `std::string`. -/
def stringArgument (argv : Arguments) (n : ℕ) : Except Thrown Bytes :=
  match argv[n]? with
  | some (some text) => .ok (toCString text)
  | _ => .error .pending

variable (hasWrapper : Bool) (argv : Arguments)

/-- A function of one path. -/
def onPath (message : String) (task : Bytes → Task) (delivery : Delivery) :
    Except Thrown Operation := do
  if argv.length < 1 then throw (.typeError message)
  let path ← stringArgument argv 0
  return ⟨task path, delivery⟩

/-- A function of one path that looks for the context wrapper after it has converted the path. -/
def onPathWithWrapper (message : String) (task : Bytes → Task) (delivery : Delivery) :
    Except Thrown Operation := do
  let operation ← onPath argv message task delivery
  if !hasWrapper then throw (.typeError "JSContextWrapper not found")
  return operation

/-- A function of a path and a content. -/
def onPathAndContent (message : String) (delivery : Delivery) : Except Thrown Operation := do
  if argv.length < 2 then throw (.typeError message)
  let path ← stringArgument argv 0
  let content ← stringArgument argv 1
  return ⟨.writeFile path content, delivery⟩

namespace IOModule

def readFile : Except Thrown Operation :=
  onPath argv "readFile expects a file path" .readFile (.blocking "readFile")

def writeFile : Except Thrown Operation :=
  onPathAndContent argv "writeFile expects a file path and content" (.blocking "writeFile")

def readFileAsync : Except Thrown Operation :=
  onPathWithWrapper hasWrapper argv "readFileAsync expects a file path" .readFile .rejecting

def writeFileAsync : Except Thrown Operation :=
  onPathAndContent argv "writeFileAsync expects a file path and content" .rejecting

end IOModule

namespace FSModule

def promisesReadFile : Except Thrown Operation :=
  onPathWithWrapper hasWrapper argv "readFile expects a file path" .readFile .resolving

def promisesWriteFile : Except Thrown Operation :=
  onPathAndContent argv "writeFile expects a file path and content" .resolving

def promisesReaddir : Except Thrown Operation :=
  onPathWithWrapper hasWrapper argv "readdir expects a directory path" .readdir .resolving

def promisesMkdir : Except Thrown Operation :=
  onPath argv "mkdir expects a directory path" .mkdir .resolving

def promisesStat : Except Thrown Operation :=
  onPath argv "stat expects a file path" .stat .resolving

end FSModule

end Functions

section Settlement

/-- The value made of an outcome. The numbers of `stats` are what `JS_NewInt64` is given. -/
inductive JSArgument where
  | string (text : String)
  | bool (value : Bool)
  | array (texts : List String)
  | stats (size : ℤ) (isFile isDirectory : Bool) (mtime : ℤ)
deriving DecidableEq, Repr

/-- What becomes of an outcome on the main thread. -/
inductive Settlement where
  | resolved (argument : JSArgument)
  | rejected (argument : JSArgument)
  | returned (value : JSArgument)
  | threw (message : Bytes)
deriving DecidableEq, Repr

/-- `S_IFMT` masks the type of a file, `S_IFREG` and `S_IFDIR` are two of them. -/
def Stat.isFile (st : Stat) : Bool := st.st_mode &&& 0o170000 == 0o100000

def Stat.isDirectory (st : Stat) : Bool := st.st_mode &&& 0o170000 == 0o040000

variable (decoder : Decoder)

def Value.toJS : Value → JSArgument
  | .content bytes => .string (decoder.newString bytes)
  | .good success => .bool success
  | .entries names => .array (names.map decoder.newString)
  | .stat st => .stats st.st_size st.isFile st.isDirectory (st.st_mtime * 1000)

/-- What the function, or its callback, does with the outcome of its future. -/
def Operation.settle (operation : Operation) : Outcome → Settlement
  | .ok value => match operation.delivery with
    | .blocking _ => .returned (value.toJS decoder)
    | .rejecting | .resolving => .resolved (value.toJS decoder)
  | .error what => match operation.delivery with
    | .blocking name => .threw (utf8 name ++ utf8 " error: " ++ beforeZero what)
    | .rejecting => .rejected (.string (decoder.newString what))
    | .resolving => .resolved (.string (decoder.newString what))

variable {decoder} {operation : Operation}

theorem Operation.settle_of_resolving (resolving : operation.delivery = .resolving)
    (outcome : Outcome) : ∃ argument, operation.settle decoder outcome = .resolved argument := by
  cases outcome <;> simp [settle, resolving]

/-- Without `reject`, a file that holds the text of the error reads like the error. -/
theorem Operation.settle_readFile_ambiguous (resolving : operation.delivery = .resolving)
    (what : Bytes) :
    operation.settle decoder (.error what) = operation.settle decoder (.ok (.content what)) := by
  simp [settle, resolving, Value.toJS]

end Settlement

end ProtoJS.Files
