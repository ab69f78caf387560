import ProtoJS.Strings.Extraction

/-! # Parsing a response

A strict parser for one HTTP/1.1 response whose length is declared. A line ends at CR LF, and none
of these two characters, nor a NUL, stands in a line by itself. A field has a token as its name,
directly before the colon; blanks around its value do not belong to it. Field names are compared
without regard to case. What follows the header section must be the body and no more.
-/

namespace ProtoJS.Http

open Strings

def crlf : Text := "\r\n".toList

def httpVersion : Text := "HTTP/1.1 ".toList

def contentLength : Text := "Content-Length".toList

def transferEncoding : Text := "Transfer-Encoding".toList

abbrev Field := Text × Text

def lower (name : Text) : Text := name.map Char.toLower

/-- A character of a token. -/
def isTchar (c : Char) : Bool := c.isAlphanum || "!#$%&'*+-.^_`|~".toList.contains c

def isBlank (c : Char) : Bool := c = ' ' || c = '\t'

/-- A character that may stand in a line. -/
def isPlain (c : Char) : Bool := !(c = '\r' || c = '\n' || c = '\x00')

/-! ### Lines and fields -/

/-- The first line, and what is behind its end. -/
def takeLine (text : Text) : Option (Text × Text) :=
  match text.dropWhile isPlain with
  | '\r' :: '\n' :: rest => some (text.takeWhile isPlain, rest)
  | _ => none

def trimBlanks (text : Text) : Text := (text.dropWhile isBlank).rdropWhile isBlank

def parseField (line : Text) : Option Field :=
  match line.dropWhile isTchar with
  | ':' :: value =>
    if line.takeWhile isTchar = [] then none
    else some (line.takeWhile isTchar, trimBlanks value)
  | _ => none

/-- The fields up to the empty line, and what is behind it. -/
def takeFields : ℕ → Text → Option (List Field × Text)
  | 0, _ => none
  | fuel + 1, text => do
    let (line, rest) ← takeLine text
    if line = [] then return ([], rest)
    let field ← parseField line
    let (fields, rest) ← takeFields fuel rest
    return (field :: fields, rest)

def fieldLine (field : Field) : Text := field.1 ++ ": ".toList ++ field.2 ++ crlf

/-- A field that is written as one line and read back as it is. -/
structure Clean (field : Field) : Prop where
  name_ne_nil : field.1 ≠ []
  name : ∀ c ∈ field.1, isTchar c
  value : ∀ c ∈ field.2, isPlain c
  trimmed : trimBlanks field.2 = field.2

section Lines

variable {c : Char} {text line name rest : Text} {field : Field} {fields : List Field} {fuel : ℕ}

theorem takeLine_append (plain : ∀ c ∈ line, isPlain c) :
    takeLine (line ++ crlf ++ rest) = some (line, rest) := by
  have stop : isPlain '\r' = false := by decide
  rw [List.append_assoc, takeLine, List.dropWhile_append_of_pos plain,
    List.takeWhile_append_of_pos plain]
  simp [crlf, stop]

theorem plain_of_takeLine (taken : takeLine text = some (line, rest)) : ∀ c ∈ line, isPlain c := by
  rw [takeLine] at taken
  split at taken
  · cases taken
    exact fun c member => List.mem_takeWhile_imp member
  · cases taken

theorem isPlain_of_isTchar (tchar : isTchar c) : isPlain c := by
  rw [isPlain, Bool.not_eq_true', Bool.or_eq_false_iff, Bool.or_eq_false_iff]
  refine ⟨⟨?_, ?_⟩, ?_⟩ <;>
  · rw [decide_eq_false_iff_not]
    rintro rfl
    exact absurd tchar (by decide)

theorem trimBlanks_trimBlanks : trimBlanks (trimBlanks text) = trimBlanks text := by
  have start : (trimBlanks text).dropWhile isBlank = trimBlanks text := by
    rw [List.dropWhile_eq_self_iff]
    intro present blank
    have shorter : trimBlanks text <+: text.dropWhile isBlank := List.rdropWhile_prefix _ _
    have inside := shorter.length_le
    rw [List.IsPrefix.getElem shorter present] at blank
    exact List.dropWhile_get_zero_not isBlank text (by omega) blank
  rw [trimBlanks, start]
  exact List.rdropWhile_idempotent _ _

theorem trimBlanks_eq_self (solid : ∀ c ∈ text, isBlank c = false) : trimBlanks text = text := by
  have start : text.dropWhile isBlank = text := by
    rw [List.dropWhile_eq_self_iff]
    intro present blank
    rw [solid _ (List.getElem_mem present)] at blank
    cases blank
  rw [trimBlanks, start, List.rdropWhile_eq_self_iff]
  intro present
  rw [solid _ (List.getLast_mem present)]
  exact Bool.false_ne_true

theorem mem_of_mem_trimBlanks (member : c ∈ trimBlanks text) : c ∈ text :=
  (List.dropWhile_suffix _).subset ((List.rdropWhile_prefix _ _).subset member)

theorem clean_of_parseField (plain : ∀ c ∈ line, isPlain c)
    (parsed : parseField line = some field) : Clean field := by
  rw [parseField] at parsed
  split at parsed
  · rename_i value shape
    split at parsed
    · cases parsed
    · rename_i present
      cases parsed
      refine ⟨present, ?_, ?_, trimBlanks_trimBlanks⟩
      · intro c member
        exact List.mem_takeWhile_imp member
      · intro c member
        have behind : c ∈ line.dropWhile isTchar := by
          rw [shape]
          exact List.mem_cons_of_mem _ (mem_of_mem_trimBlanks member)
        exact plain c ((List.dropWhile_suffix _).subset behind)
  · cases parsed

/-- Whatever the parser returns as a field is clean. -/
theorem clean_of_takeFields (taken : takeFields fuel text = some (fields, rest)) :
    ∀ field ∈ fields, Clean field := by
  induction fuel generalizing text fields with
  | zero => cases taken
  | succ fuel ih =>
    simp only [takeFields, Option.bind_eq_bind, Option.bind_eq_some_iff, Prod.exists] at taken
    obtain ⟨line, behind, first, taken⟩ := taken
    split at taken
    · cases taken
      exact fun _ member => absurd member List.not_mem_nil
    · simp only [Option.bind_eq_some_iff, Prod.exists] at taken
      obtain ⟨name, value, parsed, others, _, later, taken⟩ := taken
      cases taken
      rw [List.forall_mem_cons]
      exact ⟨clean_of_parseField (plain_of_takeLine first) parsed, ih later⟩

theorem parseField_of_clean (clean : Clean field) :
    parseField (field.1 ++ ": ".toList ++ field.2) = some field := by
  have stop : isTchar ':' = false := by decide
  have blank : isBlank ' ' = true := by decide
  have trimmed : trimBlanks (' ' :: field.2) = field.2 := by
    rw [trimBlanks, List.dropWhile_cons_of_pos blank]
    exact clean.trimmed
  have behind : (field.1 ++ ": ".toList ++ field.2).dropWhile isTchar = ':' :: ' ' :: field.2 := by
    rw [List.append_assoc, List.dropWhile_append_of_pos clean.name]
    simp [stop]
  have front : (field.1 ++ ": ".toList ++ field.2).takeWhile isTchar = field.1 := by
    rw [List.append_assoc, List.takeWhile_append_of_pos clean.name]
    simp [stop]
  rw [parseField, behind, front]
  simp only [if_neg clean.name_ne_nil, trimmed]

/-- Clean fields are read back as they were written. -/
theorem takeFields_append (clean : ∀ field ∈ fields, Clean field) (enough : fields.length < fuel) :
    takeFields fuel (fields.flatMap fieldLine ++ crlf ++ rest) = some (fields, rest) := by
  induction fields generalizing fuel with
  | nil =>
    obtain ⟨fuel, rfl⟩ := Nat.exists_eq_add_of_lt enough
    have empty : takeLine (crlf ++ rest) = some ([], rest) := @takeLine_append [] rest (by simp)
    simp [takeFields, empty]
  | cons field fields ih =>
    rw [List.forall_mem_cons] at clean
    obtain ⟨fuel, rfl⟩ : ∃ n, fuel = n + 1 := ⟨fuel - 1, by omega⟩
    have plain : ∀ c ∈ field.1 ++ ": ".toList ++ field.2, isPlain c := by
      intro c member
      rcases List.mem_append.mp member with member | member
      · rcases List.mem_append.mp member with member | member
        · exact isPlain_of_isTchar (clean.1.name c member)
        · simp only [String.reduceToList, List.mem_cons, List.not_mem_nil, or_false] at member
          rcases member with rfl | rfl <;> decide
      · exact clean.1.value c member
    have shape : (field :: fields).flatMap fieldLine ++ crlf ++ rest =
        (field.1 ++ ": ".toList ++ field.2) ++ crlf ++
          (fields.flatMap fieldLine ++ crlf ++ rest) := by
      simp [fieldLine]
    have present : field.1 ++ ": ".toList ++ field.2 ≠ [] := by simp
    rw [shape, takeFields, takeLine_append plain]
    simp only [Option.bind_eq_bind, Option.bind_some, if_neg present, parseField_of_clean clean.1,
      ih clean.2 (by simpa using enough)]
    rfl

end Lines

/-! ### Names -/

/-- The values of the fields with a name. -/
def named (fields : List Field) (name : Text) : List Text :=
  (fields.filter fun field => lower field.1 = lower name).map Prod.snd

section Names

variable {c : Char} {name name' : Text} {field : Field} {fields : List Field}

theorem named_cons : named (field :: fields) name =
    (if lower field.1 = lower name then [field.2] else []) ++ named fields name := by
  rw [named, List.filter_cons]
  split
  · rename_i same
    simp only [decide_eq_true_eq] at same
    simp [named, same]
  · rename_i differ
    simp only [decide_eq_true_eq] at differ
    simp [named, differ]

theorem mem_named {value : Text} :
    value ∈ named fields name ↔ ∃ field ∈ fields, lower field.1 = lower name ∧ field.2 = value := by
  simp [named, and_assoc]

theorem named_eq_nil_iff :
    named fields name = [] ↔ ∀ field ∈ fields, lower field.1 ≠ lower name := by
  simp [named, List.filter_eq_nil_iff]

theorem named_congr (same : lower name = lower name') : named fields name = named fields name' := by
  rw [named, named, same]

/-- Every field is the only one of its name if and only if no two names are the same. -/
theorem nodup_names_iff : (fields.map fun field => lower field.1).Nodup ↔
    ∀ field ∈ fields, named fields field.1 = [field.2] := by
  induction fields with
  | nil => simp
  | cons first fields ih =>
    rw [List.map_cons, List.nodup_cons, List.forall_mem_cons, ih]
    have own : named (first :: fields) first.1 = [first.2] ↔ named fields first.1 = [] := by
      rw [named_cons, if_pos rfl]
      simp
    have apart : lower first.1 ∉ (fields.map fun field => lower field.1) ↔
        named fields first.1 = [] := by
      simp [named_eq_nil_iff]
    rw [own, apart, and_congr_right_iff]
    intro alone
    refine forall₂_congr fun field member => ?_
    rw [named_cons, if_neg (Ne.symm (named_eq_nil_iff.mp alone field member)), List.nil_append]

theorem isTchar_of_isAlpha (alpha : c.isAlpha) : isTchar c := by
  rw [isTchar, Char.isAlphanum, alpha]
  rfl

theorem isTchar_toLower : isTchar c.toLower = isTchar c := by
  cases upper : c.isUpper with
  | true =>
    have alpha : c.isAlpha := by rw [Char.isAlpha, upper, Bool.true_or]
    have alphaLower : c.toLower.isAlpha := by rw [Char.isAlpha_toLower_eq_isAlpha, alpha]
    rw [isTchar_of_isAlpha alpha, isTchar_of_isAlpha alphaLower]
  | false => rw [Char.toLower_eq_of_not_isUpper (by simp [upper])]

/-- A name that is a token but for its case is a token. -/
theorem tchars_of_lower_eq (same : lower name = lower name') (token : ∀ c ∈ name', isTchar c) :
    ∀ c ∈ name, isTchar c := by
  have inside : ∀ c ∈ lower name, isTchar c := by
    rw [same]
    simpa [lower, isTchar_toLower] using token
  simpa [lower, isTchar_toLower] using inside

/-- A field that is found among clean ones under its name and with its value is clean. -/
theorem clean_of_named (clean : ∀ field ∈ fields, Clean field)
    (found : named fields field.1 = [field.2]) : Clean field := by
  have member : field.2 ∈ named fields field.1 := by rw [found]; exact List.mem_singleton_self _
  obtain ⟨read, present, sameName, sameValue⟩ := mem_named.mp member
  have readClean := clean read present
  refine ⟨?_, tchars_of_lower_eq sameName.symm readClean.name, ?_, ?_⟩
  · intro empty
    rw [empty] at sameName
    exact readClean.name_ne_nil (List.map_eq_nil_iff.mp sameName)
  · rw [← sameValue]
    exact readClean.value
  · rw [← sameValue]
    exact readClean.trimmed

end Names

/-! ### Responses -/

structure Response where
  status : ℕ
  fields : List Field
  body : Text
deriving DecidableEq, Repr

/-- The version, a blank, three digits and a blank come first. -/
def parseStatusLine (line : Text) : Option ℕ :=
  let code := (line.drop 9).takeWhile Char.isDigit
  if line.take 9 = httpVersion ∧ code.length = 3 ∧ (line.drop 12).head? = some ' ' then
    some (Nat.ofDigitChars 10 code 0)
  else none

/-- A status whose responses have no body, whatever length they declare. -/
def Bodiless (status : ℕ) : Prop := status = 204 ∨ status = 304

instance (status : ℕ) : Decidable (Bodiless status) := by unfold Bodiless; infer_instance

/-- The body of a final response whose only framing is one `Content-Length`. -/
def frame (status : ℕ) (fields : List Field) (rest : Text) : Option Text :=
  if status < 200 ∨ named fields transferEncoding ≠ [] then none
  else
    match named fields contentLength with
    | [length] =>
      if length ≠ [] ∧ length.all Char.isDigit ∧
          rest.length = (if Bodiless status then 0 else Nat.ofDigitChars 10 length 0) then
        some rest
      else none
    | _ => none

/-- The text as one response and nothing more. -/
def parseResponse (text : Text) : Option Response := do
  let (line, rest) ← takeLine text
  let status ← parseStatusLine line
  let (fields, rest) ← takeFields rest.length rest
  let body ← frame status fields rest
  return { status, fields, body }

section Responses

variable {line body text : Text} {fields : List Field} {response : Response}

/-- What is behind the version is read as a status if it starts with three digits and a blank. -/
theorem parseStatusLine_append : parseStatusLine (httpVersion ++ text) =
    if (text.takeWhile Char.isDigit).length = 3 ∧ (text.drop 3).head? = some ' ' then
      some (Nat.ofDigitChars 10 (text.takeWhile Char.isDigit) 0)
    else none := by
  have front : (httpVersion ++ text).take 9 = httpVersion := rfl
  have behind : (httpVersion ++ text).drop 9 = text := rfl
  have later : (httpVersion ++ text).drop 12 = text.drop 3 := rfl
  simp only [parseStatusLine, front, behind, later, true_and]

theorem parseStatusLine_decimal {n : ℕ} {reason : Text} :
    parseStatusLine (httpVersion ++ (decimal n ++ ' ' :: reason)) =
      if 100 ≤ n ∧ n ≤ 999 then some n else none := by
  have ends : EndsDigits (' ' :: reason) := by
    rintro c ⟨⟩
    decide
  have read : Nat.ofDigitChars 10 (decimal n) 0 = n := Nat.ofDigitChars_ten_toDigits
  have atMost := @Nat.length_toDigits_le_iff 10 n 3 (by omega) (by omega)
  have atLeast := @Nat.length_toDigits_le_iff 10 n 2 (by omega) (by omega)
  rw [parseStatusLine_append, takeWhile_decimal_append ends, read]
  refine if_congr ?_ rfl rfl
  constructor
  · rintro ⟨three, _⟩
    rw [decimal] at three
    omega
  · intro bounds
    have three : (decimal n).length = 3 := by
      rw [decimal]
      omega
    rw [← three, List.drop_left]
    exact ⟨rfl, rfl⟩

theorem parseStatusLine_minus :
    parseStatusLine (httpVersion ++ '-' :: text) = none := by
  rw [parseStatusLine_append, if_neg]
  rintro ⟨three, _⟩
  cases three

/-- A status line, clean fields and a body are read as they were written. -/
theorem parseResponse_append (plain : ∀ c ∈ line, isPlain c)
    (clean : ∀ field ∈ fields, Clean field) :
    parseResponse (line ++ crlf ++ (fields.flatMap fieldLine ++ crlf ++ body)) =
      (parseStatusLine line).bind fun status =>
        (frame status fields body).map fun body => { status, fields, body } := by
  have enough : fields.length < (fields.flatMap fieldLine ++ crlf ++ body).length := by
    have present : ∀ n ∈ fields.map fun field => (fieldLine field).length, 1 ≤ n := by
      rw [List.forall_mem_map]
      intro field _
      have present : fieldLine field ≠ [] := by simp [fieldLine, crlf]
      exact List.length_pos_iff.mpr present
    have atLeast := List.length_le_sum_of_one_le _ present
    rw [List.length_map, ← List.length_flatMap] at atLeast
    have terminator : crlf.length = 2 := rfl
    rw [List.length_append, List.length_append]
    omega
  rw [parseResponse, takeLine_append plain]
  simp only [Option.bind_eq_bind, Option.bind_some, takeFields_append clean enough,
    Option.map_eq_bind]
  rfl

theorem clean_of_parseResponse (parsed : parseResponse text = some response) :
    ∀ field ∈ response.fields, Clean field := by
  simp only [parseResponse, Option.bind_eq_bind, Option.bind_eq_some_iff, Prod.exists] at parsed
  obtain ⟨_, _, _, _, _, fields, _, taken, _, _, parsed⟩ := parsed
  cases parsed
  exact clean_of_takeFields taken

theorem frame_eq_some_iff {status : ℕ} {rest : Text} : frame status fields rest = some body ↔
    200 ≤ status ∧ named fields transferEncoding = [] ∧
      (∃ length, named fields contentLength = [length] ∧ length ≠ [] ∧
        length.all Char.isDigit ∧
        rest.length = if Bodiless status then 0 else Nat.ofDigitChars 10 length 0) ∧
      rest = body := by
  rw [frame]
  split
  · rename_i refused
    constructor
    · intro success
      cases success
    · rintro ⟨final, unencoded, _⟩
      rcases refused with early | encoded
      · omega
      · exact absurd unencoded encoded
  · rename_i accepted
    rw [not_or, not_lt, not_ne_iff] at accepted
    split
    · rename_i length only
      rw [only]
      simp [accepted.1]
      tauto
    · rename_i several
      constructor
      · intro success
        cases success
      · rintro ⟨_, _, ⟨length, only, _⟩, _⟩
        exact absurd only (several length)

end Responses

end ProtoJS.Http
