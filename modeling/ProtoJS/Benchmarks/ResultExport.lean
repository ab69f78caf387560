import ProtoJS.Benchmarks.Baseline
import ProtoJS.Npm.PastedJson

/-! # Benchmark results as JSON

`exportToJSON` prints the results member by member. The names go between quotes as they are, and
the message of a benchmark that failed is left out.
-/

namespace ProtoJS.Benchmarks

open Strings Npm

variable {ν : Type} (doubles : PrintedDoubles ν)

/-- The object that is printed for a result. -/
def resultObject (result : BenchmarkResult ν) : Text :=
  '{' :: '\n' :: field 6 "name".toList (quotedWord result.name ++ ',' ::
    '\n' :: field 6 "protojs_time_ms".toList (doubles.render result.protojs_time_ms ++ ',' ::
    '\n' :: field 6 "nodejs_time_ms".toList (doubles.render result.nodejs_time_ms ++ ',' ::
    '\n' :: field 6 "speedup".toList (doubles.render result.speedup ++ ',' ::
    '\n' :: field 6 "memory_usage_bytes".toList (decimal result.memory_usage_bytes.toNat ++ ',' ::
    '\n' :: field 6 "success".toList (flag result.success ++
      '\n' :: (List.replicate 4 ' ' ++ ['}'])))))))

def exportToJSON (results : List (BenchmarkResult ν)) : Text :=
  '{' :: '\n' :: field 2 "benchmarks".toList ('[' :: '\n' ::
    (listing 4 (resultObject doubles) results ++
      (List.replicate 2 ' ' ++ ']' :: '\n' :: '}' :: ['\n'])))

/-- The member for a message, if there is one. -/
def messageMember (message : Text) : List (Text × JsonValue ℚ) :=
  if message = [] then [] else [("error_message".toList, .string message)]

/-- What a result is as JSON. -/
def BenchmarkResult.json (result : BenchmarkResult ν) : JsonValue ℚ :=
  .object <| [("name".toList, .string result.name),
    ("protojs_time_ms".toList, .number (doubles.value result.protojs_time_ms)),
    ("nodejs_time_ms".toList, .number (doubles.value result.nodejs_time_ms)),
    ("speedup".toList, .number (doubles.value result.speedup)),
    ("memory_usage_bytes".toList, .number result.memory_usage_bytes.toNat),
    ("success".toList, .bool result.success)] ++ messageMember result.error_message

def resultsJson (results : List (BenchmarkResult ν)) : JsonValue ℚ :=
  .object [("benchmarks".toList, .array (results.map fun result => result.json doubles))]

/-- Nothing in a result is printed as anything else. -/
def BenchmarkResult.Printable (result : BenchmarkResult ν) : Prop :=
  Plain result.name ∧ doubles.isFinite result.protojs_time_ms = true ∧
    doubles.isFinite result.nodejs_time_ms = true ∧ doubles.isFinite result.speedup = true ∧
    result.error_message = []

/-- A message is missing. -/
theorem pasted_missing (message : Text) :
    Pasted (message = []) (.moreMembers (messageMember message)) ['}'] := by
  rw [messageMember]
  split
  · rename_i empty
    exact Pasted.endObject.congr (by simp [empty])
  · rename_i present
    exact Pasted.missing.congr (by simp [present])

theorem pasted_resultObject (result : BenchmarkResult ν) :
    Pasted (result.Printable doubles) (.value (result.json doubles))
      (resultObject doubles result) := by
  have bytes := pasted_integer result.memory_usage_bytes.toNat
  rw [signedDecimal_natCast, Int.cast_natCast] at bytes
  have pasted := Pasted.object <|
    pasted_field (n := 6) (k := "name".toList) (by simp [Plain]) (pasted_quotedWord result.name) <|
    .nextMember <| pasted_field (n := 6) (k := "protojs_time_ms".toList) (by simp [Plain])
      (pasted_double doubles result.protojs_time_ms) <|
    .nextMember <| pasted_field (n := 6) (k := "nodejs_time_ms".toList) (by simp [Plain])
      (pasted_double doubles result.nodejs_time_ms) <|
    .nextMember <| pasted_field (n := 6) (k := "speedup".toList) (by simp [Plain])
      (pasted_double doubles result.speedup) <|
    .nextMember <| pasted_field (n := 6) (k := "memory_usage_bytes".toList) (by simp [Plain])
      bytes <|
    .nextMember <| pasted_lastField (n := 6) (m := 4) (k := "success".toList) (by simp [Plain])
      (pasted_flag result.success) (pasted_missing result.error_message)
  exact pasted.congr (by simp [BenchmarkResult.Printable])

/-- The results are read back from what is printed exactly if nothing in them is printed as
anything else. -/
theorem standsFor_exportToJSON_iff (results : List (BenchmarkResult ν)) :
    StandsFor (exportToJSON doubles results) (resultsJson doubles results) ↔
      ∀ result ∈ results, result.Printable doubles := by
  have pasted := Pasted.object <|
    pasted_lastField (n := 2) (m := 0) (k := "benchmarks".toList) (by simp [Plain])
      (pasted_listing (n := 4) 2 (pasted_resultObject doubles) results) .endObject
  have newline : White ['\n'] := white_newline 0
  have whole := pasted.standsFor_iff newline
  rw [and_true] at whole
  rw [← whole, exportToJSON, resultsJson]
  simp [field]

end ProtoJS.Benchmarks
