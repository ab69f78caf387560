import ProtoJS.Strings.Escapes
import ProtoJS.Strings.Extraction
import ProtoJS.Strings.Lines

/-! # The baseline file

`saveBaseline` writes one line for each result, with the name escaped. `loadBaseline` splits the
file at its line ends, whatever mark stands in front of them, and unescapes a name twice: once
while it looks for the comma, and once more.
-/

namespace ProtoJS.Benchmarks

open Strings

/-- A result, as far as a baseline or the gate reads it; `ν` are the doubles. -/
structure BenchmarkResult (ν : Type) where
  name : Text
  protojs_time_ms : ν
  nodejs_time_ms : ν
  speedup : ν
  memory_usage_bytes : UInt64
  success : Bool
  error_message : Text := []
deriving DecidableEq, Repr

/-- The characters that `escapeBaselineField` marks. -/
def special (c : Char) : Bool := c = '\n' || c = '\r' || c = ',' || c = '\\'

/-- What `<<` prints of a double, and what `stod` reads of a text. -/
structure Doubles (ν : Type) where
  render : ν → Text
  stod : Text → Option ν
  render_plain : ∀ x, ∀ c ∈ render x, special c = false

/-- `std::stoull`, base ten: `none` where it throws. -/
def stoull (text : Text) : Option UInt64 :=
  let input := text.dropWhile isSpace
  let negative := input.head? = some '-'
  let unsigned := if negative ∨ input.head? = some '+' then input.tail else input
  let digits := unsigned.takeWhile Char.isDigit
  let magnitude := Nat.ofDigitChars 10 digits 0
  if digits = [] ∨ 2 ^ 64 ≤ magnitude then none
  else some (if negative then -UInt64.ofNat magnitude else UInt64.ofNat magnitude)

def escapeBaselineField (s : Text) : Text := escape '\\' special s

def unescapeBaselineField (s : Text) : Text := unescape '\\' s

def header : Text :=
  "name,protojs_time_ms,nodejs_time_ms,speedup,memory_usage_bytes,success".toList

variable {ν : Type} (doubles : Doubles ν)

/-- The line of a result, without its end. -/
def baselineLine (r : BenchmarkResult ν) : Text :=
  escapeBaselineField r.name ++ ',' :: (doubles.render r.protojs_time_ms ++
    ',' :: (doubles.render r.nodejs_time_ms ++ ',' :: (doubles.render r.speedup ++
      ',' :: (decimal r.memory_usage_bytes.toNat ++ [',', if r.success then '1' else '0']))))

/-- What is in the file after `saveBaseline`. -/
def saveBaseline (results : List (BenchmarkResult ν)) : Text :=
  header ++ '\n' :: results.flatMap fun r => baselineLine doubles r ++ ['\n']

/-- The body of the loop over the lines: `none` where it continues with the next line. -/
def loadLine (line : Text) : Option (BenchmarkResult ν) := do
  if line = [] then none
  let (name, line) := readField '\\' ',' line
  let (a, line) := readField '\\' ',' line
  let (b, line) := readField '\\' ',' line
  let (c, line) := readField '\\' ',' line
  let (d, e) := readField '\\' ',' line
  let protojs_time_ms ← doubles.stod a
  let nodejs_time_ms ← doubles.stod b
  let speedup ← doubles.stod c
  let memory_usage_bytes ← stoull d
  return { name := unescapeBaselineField name
           protojs_time_ms, nodejs_time_ms, speedup, memory_usage_bytes
           success := e = ['1'] || e = ['1', '\n'] || e = ['1', '\r'] }

/-- `loadBaseline` of a file; `none` is a file that cannot be opened. -/
def loadBaseline (file : Option Text) : List (BenchmarkResult ν) :=
  match file.map (lines '\n') with
  | some (first :: rest) => if first = header then rest.filterMap (loadLine doubles) else []
  | _ => []

/-- What a baseline records of a result. -/
def BenchmarkResult.columns (r : BenchmarkResult ν) : Text × ν × ν × ν × UInt64 × Bool :=
  (r.name, r.protojs_time_ms, r.nodejs_time_ms, r.speedup, r.memory_usage_bytes, r.success)

variable {doubles}

/-! ### One line -/

theorem stoull_decimal (n : UInt64) : stoull (decimal n.toNat) = some n := by
  obtain ⟨c, digits, first, digit⟩ := decimal_eq_cons n.toNat
  have noSpace : (decimal n.toNat).dropWhile isSpace = decimal n.toNat := by
    rw [first]
    simp [isSpace_eq_false_of_isDigit digit]
  have noMinus : c ≠ '-' := by rintro rfl; exact absurd digit (by decide)
  have noPlus : c ≠ '+' := by rintro rfl; exact absurd digit (by decide)
  have head : (decimal n.toNat).head? = some c := by rw [first]; rfl
  have whole : (decimal n.toNat).takeWhile Char.isDigit = decimal n.toNat :=
    List.takeWhile_eq_self_iff.mpr fun c member => isDigit_of_mem_decimal member
  have value : Nat.ofDigitChars 10 (decimal n.toNat) 0 = n.toNat := by
    rw [decimal, Nat.ofDigitChars_ten_toDigits]
  have bound := n.toNat_lt
  simp only [stoull, noSpace, head, Option.some.injEq, noMinus, noPlus, or_self, if_false, whole,
    value, decimal_ne_nil, false_or]
  rw [if_neg (by omega), UInt64.ofNat_toNat]

/-- The numbers of a result are read back as they are printed. -/
structure Exact (doubles : Doubles ν) (r : BenchmarkResult ν) : Prop where
  protojs_time_ms : doubles.stod (doubles.render r.protojs_time_ms) = some r.protojs_time_ms
  nodejs_time_ms : doubles.stod (doubles.render r.nodejs_time_ms) = some r.nodejs_time_ms
  speedup : doubles.stod (doubles.render r.speedup) = some r.speedup

/-- A plain field is read up to its comma. -/
theorem readField_plain {field rest : Text} (plain : ∀ c ∈ field, special c = false) :
    readField '\\' ',' (field ++ ',' :: rest) = (field, rest) := by
  have read := @readField_escape Char '\\' _ special ',' field rest rfl rfl (by decide)
  rwa [escape_eq_self plain] at read

theorem special_decimal (n : ℕ) : ∀ c ∈ decimal n, special c = false := by
  intro c member
  have digit := isDigit_of_mem_decimal member
  rw [Bool.eq_false_iff]
  intro marked
  simp only [special, Bool.or_eq_true, decide_eq_true_eq] at marked
  rcases marked with ((rfl | rfl) | rfl) | rfl <;> exact absurd digit (by decide)

theorem loadLine_baselineLine {r : BenchmarkResult ν} (exact : Exact doubles r) :
    loadLine doubles (baselineLine doubles r) =
      some { r with name := unescapeBaselineField r.name, error_message := [] } := by
  have name (rest : Text) :
      readField '\\' ',' (escapeBaselineField r.name ++ ',' :: rest) = (r.name, rest) :=
    readField_escape rfl rfl (by decide)
  have present : baselineLine doubles r ≠ [] := by simp [baselineLine]
  have memory : decimal r.memory_usage_bytes.toNat ++ [',', if r.success then '1' else '0'] =
      decimal r.memory_usage_bytes.toNat ++ ',' :: [if r.success then '1' else '0'] := rfl
  rw [loadLine, if_neg present, baselineLine, name]
  simp only [readField_plain (doubles.render_plain _), readField_plain (special_decimal _),
    exact.protojs_time_ms, exact.nodejs_time_ms, exact.speedup, stoull_decimal, Option.bind_eq_bind,
    Option.bind_some]
  cases r.success <;> rfl

/-! ### The whole file -/

theorem newline_notMem_baselineLine {r : BenchmarkResult ν} (oneLine : '\n' ∉ r.name) :
    '\n' ∉ baselineLine doubles r := by
  have name : '\n' ∉ escapeBaselineField r.name := by
    intro member
    exact (mem_of_mem_escape member).elim (by decide) oneLine
  have plain {field : Text} (plain : ∀ c ∈ field, special c = false) : '\n' ∉ field :=
    fun member => absurd (plain _ member) (by decide)
  have flag : '\n' ≠ if r.success then '1' else '0' := by cases r.success <;> decide
  simp [baselineLine, name, plain (doubles.render_plain _), plain (special_decimal _), flag]

/-- The lines of a file whose names hold no line end are the lines of the results. -/
theorem lines_saveBaseline {results : List (BenchmarkResult ν)}
    (oneLine : ∀ r ∈ results, '\n' ∉ r.name) :
    lines '\n' (saveBaseline doubles results) = header :: results.map (baselineLine doubles) := by
  rw [saveBaseline, lines_append (by decide), List.cons.injEq, and_iff_right rfl]
  induction results with
  | nil => rfl
  | cons r results ih =>
    rw [List.forall_mem_cons] at oneLine
    rw [List.flatMap_cons, List.append_assoc, List.singleton_append,
      lines_append (newline_notMem_baselineLine oneLine.1), ih oneLine.2, List.map_cons]

theorem name_of_loadLine {line : Text} {r : BenchmarkResult ν}
    (loaded : loadLine doubles line = some r) :
    r.name = unescapeBaselineField (readField '\\' ',' line).1 := by
  rw [loadLine] at loaded
  split at loaded
  · exact absurd loaded (by simp)
  · simp only [Option.bind_eq_bind, Option.bind_eq_some_iff] at loaded
    obtain ⟨_, _, _, _, _, _, _, _, returned⟩ := loaded
    cases returned
    rfl

/-- A name that is loaded holds no line end. -/
theorem newline_notMem_of_mem_loadBaseline {file : Text} {r : BenchmarkResult ν}
    (member : r ∈ loadBaseline doubles (some file)) : '\n' ∉ r.name := by
  rw [loadBaseline, Option.map_some] at member
  split at member
  · rename_i first rest split
    split at member
    · obtain ⟨line, inside, loaded⟩ := List.mem_filterMap.mp member
      have isLine : line ∈ lines '\n' file := by
        rw [Option.some.inj split]
        exact List.mem_cons_of_mem _ inside
      have apart : '\n' ∉ line := notMem_of_mem_lines isLine
      rw [name_of_loadLine loaded]
      intro inName
      exact apart (mem_of_mem_readField (mem_of_mem_unescape inName))
    · exact absurd member List.not_mem_nil
  · exact absurd member List.not_mem_nil

/-- What is loaded of a file whose names hold no line end. -/
theorem loadBaseline_saveBaseline {results : List (BenchmarkResult ν)}
    (exact : ∀ r ∈ results, Exact doubles r) (oneLine : ∀ r ∈ results, '\n' ∉ r.name) :
    loadBaseline doubles (some (saveBaseline doubles results)) =
      results.map fun r => { r with name := unescapeBaselineField r.name, error_message := [] } := by
  rw [loadBaseline, Option.map_some, lines_saveBaseline oneLine]
  simp only [if_true]
  induction results with
  | nil => rfl
  | cons r results ih =>
    rw [List.forall_mem_cons] at exact oneLine
    rw [List.map_cons, List.filterMap_cons_some (loadLine_baselineLine exact.1),
      ih exact.2 oneLine.2, List.map_cons]

/-- The results of a baseline are loaded as they were saved, if and only if no name holds a line
feed, nor a backslash but as its last character. -/
theorem columns_loadBaseline_iff {results : List (BenchmarkResult ν)}
    (exact : ∀ r ∈ results, Exact doubles r) :
    (loadBaseline doubles (some (saveBaseline doubles results))).map BenchmarkResult.columns =
        results.map BenchmarkResult.columns ↔
      ∀ r ∈ results, '\n' ∉ r.name ∧ '\\' ∉ r.name.dropLast := by
  constructor
  · intro same
    have oneLine : ∀ r ∈ results, '\n' ∉ r.name := by
      intro r member
      have kept := List.mem_map_of_mem (f := BenchmarkResult.columns) member
      rw [← same] at kept
      obtain ⟨loaded, found, columns⟩ := List.mem_map.mp kept
      have name : loaded.name = r.name := congrArg Prod.fst columns
      rw [← name]
      exact newline_notMem_of_mem_loadBaseline found
    rw [loadBaseline_saveBaseline exact oneLine, List.map_map, List.map_inj_left] at same
    intro r member
    have name : unescapeBaselineField r.name = r.name := congrArg Prod.fst (same r member)
    exact ⟨oneLine r member, unescape_eq_self_iff.mp name⟩
  · intro clean
    rw [loadBaseline_saveBaseline exact fun r member => (clean r member).1, List.map_map,
      List.map_inj_left]
    intro r member
    have name : unescapeBaselineField r.name = r.name :=
      unescape_eq_self_iff.mpr (clean r member).2
    simp [BenchmarkResult.columns, name]

/-- The doubles that are whole numbers, as far as they are printed in digits. -/
def wholeNumbers : Doubles ℤ where
  render x := (if x < 0 then ['-'] else []) ++ decimal x.natAbs
  stod text := (extractInt text).map Prod.fst
  render_plain x c member := by
    rcases List.mem_append.mp member with sign | digit
    · split at sign
      · rw [List.mem_singleton.mp sign]
        rfl
      · exact absurd sign List.not_mem_nil
    · exact special_decimal _ c digit

def timed (name : String) : BenchmarkResult ℤ where
  name := name.toList
  protojs_time_ms := 5
  nodejs_time_ms := 4
  speedup := 1
  memory_usage_bytes := 1024
  success := true

theorem exact_timed (name : String) : Exact wholeNumbers (timed name) where
  protojs_time_ms := (by decide : wholeNumbers.stod (wholeNumbers.render 5) = some 5)
  nodejs_time_ms := (by decide : wholeNumbers.stod (wholeNumbers.render 4) = some 4)
  speedup := (by decide : wholeNumbers.stod (wholeNumbers.render 1) = some 1)

theorem columns_loadBaseline_comma :
    (loadBaseline wholeNumbers (some (saveBaseline wholeNumbers [timed "a,b"]))).map
      BenchmarkResult.columns = [(timed "a,b").columns] :=
  (columns_loadBaseline_iff (by simp [exact_timed])).mpr (by decide)

/-- A path with a backslash is loaded as another one. -/
theorem not_columns_loadBaseline_backslash :
    ¬ ∀ results : List (BenchmarkResult ℤ), (∀ r ∈ results, Exact wholeNumbers r) →
      (loadBaseline wholeNumbers (some (saveBaseline wholeNumbers results))).map
        BenchmarkResult.columns = results.map BenchmarkResult.columns := by
  intro all
  have same := all [timed "a\\b"] (by simp [exact_timed])
  exact absurd same (by decide)

end ProtoJS.Benchmarks
