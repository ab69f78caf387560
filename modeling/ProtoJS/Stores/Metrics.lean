import ProtoJS.Machine.Mutex

/-! # The metrics store

`Metrics` keeps counters, gauges and histograms in three sparse lists under the hash of a name with
its labels. protoCore is outside of the repository: a sparse list is a finite map from hashes, the
hash and the reading of an object as a double are parameters, and so are the doubles `δ`. All
public functions but `exportPrometheus` lock one static mutex.
-/

namespace ProtoJS.Metrics

/-- The protoCore objects that metrics and labels are made of. -/
inductive Value (δ : Type) where
  | double (value : δ)
  | integer (value : ℤ)
  | string (text : String)
deriving DecidableEq, Repr

variable {δ η : Type}

/-- What the store asks protoCore and the C library. -/
structure Core (δ η : Type) where
  stringHash : String → η
  asDouble : Value δ → δ
  /-- The buckets 0.1, 0.5, 1, 5, 10, 50, 100, 500, 1000. -/
  defaultBuckets : List δ
  /-- `%g`. -/
  format : δ → String

/-- A `HistogramStats` object, by its attributes. -/
structure HistogramStats (δ : Type) where
  buckets : Option (List δ) := none
  counts : Option (List ℤ) := none
  sum : Option δ := none
  count : Option ℤ := none
deriving DecidableEq, Repr

abbrev Storage (η α : Type) := AList fun _ : η => α

/-- The three static lists; a gauge may hold a null pointer. -/
structure State (δ η : Type) where
  countersStorage : Storage η (Value δ) := ∅
  gaugesStorage : Storage η (Option (Value δ)) := ∅
  histogramsStorage : Storage η (HistogramStats δ) := ∅

abbrev Labels (δ η : Type) := Option (Storage η (Value δ))

/-- The text of a label value; a value that is not a string has none. -/
def Value.labelText : Value δ → String
  | .string text => text
  | _ => ""

/-- The name, followed by the label values in braces if there are labels. -/
def makeKey (name : String) (labels : Labels δ η) : String :=
  match labels with
  | none => name
  | some labels =>
    if labels.entries.length = 0 then name
    else name ++ "\x7b" ++
      String.intercalate "," (labels.entries.map fun entry => entry.2.labelText) ++ "\x7d"

section Operations

variable [DecidableEq η] [Zero δ] [One δ] [Add δ] [LE δ] [DecidableLE δ] (core : Core δ η)
  (kind : MutexKind)

abbrev StoreCall (δ η : Type) := Call (State δ η)

def incrementCounter (name : String) (value : Option (Value δ)) (labels : Labels δ η) :
    StoreCall δ η Unit :=
  Call.withLock kind do
    let storage := (← Call.get).countersStorage
    let keyHash := core.stringHash (makeKey name labels)
    let current := core.asDouble ((storage.lookup keyHash).getD (.double 0))
    let increment := match value with
      | some value => core.asDouble value
      | none => 1
    Call.modify fun s =>
      { s with countersStorage := storage.insert keyHash (.double (current + increment)) }

def getCounter (name : String) (labels : Labels δ η) : StoreCall δ η (Value δ) :=
  Call.withLock kind do
    let storage := (← Call.get).countersStorage
    pure ((storage.lookup (core.stringHash (makeKey name labels))).getD (.double 0))

def setGauge (name : String) (value : Option (Value δ)) (labels : Labels δ η) :
    StoreCall δ η Unit :=
  Call.withLock kind do
    let storage := (← Call.get).gaugesStorage
    Call.modify fun s =>
      { s with gaugesStorage := storage.insert (core.stringHash (makeKey name labels)) value }

def addGauge (name : String) (value : Value δ) (labels : Labels δ η) : StoreCall δ η Unit :=
  Call.withLock kind do
    let storage := (← Call.get).gaugesStorage
    let keyHash := core.stringHash (makeKey name labels)
    let current := core.asDouble ((storage.lookup keyHash).join.getD (.double 0))
    Call.modify fun s =>
      { s with gaugesStorage :=
          storage.insert keyHash (some (.double (current + core.asDouble value))) }

def getGauge (name : String) (labels : Labels δ η) : StoreCall δ η (Value δ) :=
  Call.withLock kind do
    let storage := (← Call.get).gaugesStorage
    pure ((storage.lookup (core.stringHash (makeKey name labels))).join.getD (.double 0))

/-- The stats object of a histogram without a value. -/
def emptyHistogram : HistogramStats δ where
  buckets := some core.defaultBuckets
  counts := some (core.defaultBuckets.map fun _ => 0)
  sum := some 0
  count := some 0

/-- Count the value in the first bucket that bounds it. -/
def countInBucket (value : δ) (buckets : List δ) (counts : List ℤ) : List ℤ :=
  match buckets.findIdx? (value ≤ ·) with
  | some i => counts.set i (counts.getD i 0 + 1)
  | none => counts

def recordHistogram (name : String) (value : Value δ) (labels : Labels δ η) :
    StoreCall δ η Unit :=
  Call.withLock kind do
    let storage := (← Call.get).histogramsStorage
    let keyHash := core.stringHash (makeKey name labels)
    let stats := (storage.lookup keyHash).getD (emptyHistogram core)
    let val := core.asDouble value
    let updated := { stats with
      sum := some (stats.sum.getD 0 + val)
      count := some (stats.count.getD 0 + 1) }
    -- the objects are mutable: the sum and the count stay when the buckets are missing
    let recorded := match updated.buckets, updated.counts with
      | some buckets, some counts =>
        { updated with counts := some (countInBucket val buckets counts) }
      | _, _ => updated
    Call.modify fun s => { s with histogramsStorage := storage.insert keyHash recorded }

def getHistogram (name : String) (labels : Labels δ η) : StoreCall δ η (HistogramStats δ) :=
  Call.withLock kind do
    let storage := (← Call.get).histogramsStorage
    let stats := (storage.lookup (core.stringHash (makeKey name labels))).getD {}
    pure
      { buckets := some (stats.buckets.getD [])
        counts := some (stats.counts.getD [])
        sum := some (stats.sum.getD 0)
        count := some (stats.count.getD 0) }

/-- The snapshot is the three lists, which are immutable. -/
def getSnapshot : StoreCall δ η (State δ η) := Call.withLock kind Call.get

/-- What `exportJSON` prints of a counter. -/
def Value.json (format : δ → String) : Value δ → String
  | .double value => format value
  | _ => ""

def exportJSON : StoreCall δ η String :=
  Call.withLock kind do
    let snapshot ← getSnapshot kind
    let values := snapshot.countersStorage.entries.map fun entry => entry.2.json core.format
    pure ("\x7b\"counters\":\x7b" ++ String.intercalate "," values ++ "\x7d\x7d")

def exportPrometheus : StoreCall δ η String := pure "# Prometheus format export"

end Operations

/-- A call of a public function. -/
inductive Operation (δ η : Type) where
  | incrementCounter (name : String) (value : Option (Value δ)) (labels : Labels δ η)
  | getCounter (name : String) (labels : Labels δ η)
  | setGauge (name : String) (value : Option (Value δ)) (labels : Labels δ η)
  | addGauge (name : String) (value : Value δ) (labels : Labels δ η)
  | getGauge (name : String) (labels : Labels δ η)
  | recordHistogram (name : String) (value : Value δ) (labels : Labels δ η)
  | getHistogram (name : String) (labels : Labels δ η)
  | getSnapshot
  | exportJSON
  | exportPrometheus

/-- The call with its result dropped. -/
def Operation.call [DecidableEq η] [Zero δ] [One δ] [Add δ] [LE δ] [DecidableLE δ]
    (core : Core δ η) (kind : MutexKind) : Operation δ η → StoreCall δ η Unit
  | .incrementCounter name value labels => Metrics.incrementCounter core kind name value labels
  | .getCounter name labels => Metrics.getCounter core kind name labels >>= fun _ => pure ()
  | .setGauge name value labels => Metrics.setGauge core kind name value labels
  | .addGauge name value labels => Metrics.addGauge core kind name value labels
  | .getGauge name labels => Metrics.getGauge core kind name labels >>= fun _ => pure ()
  | .recordHistogram name value labels => Metrics.recordHistogram core kind name value labels
  | .getHistogram name labels => Metrics.getHistogram core kind name labels >>= fun _ => pure ()
  | .getSnapshot => Metrics.getSnapshot kind >>= fun _ => pure ()
  | .exportJSON => Metrics.exportJSON core kind >>= fun _ => pure ()
  | .exportPrometheus => Metrics.exportPrometheus >>= fun _ => pure ()

end ProtoJS.Metrics
