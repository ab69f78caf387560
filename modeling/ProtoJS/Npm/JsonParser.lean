import ProtoJS.Machine.OrderedMap
import ProtoJS.Strings.Extraction

/-! # The JSON parser

The class `Parser` behind `JsonParse`. A function takes the text that is left and returns what it
has read with the text that is left then. Nothing in the parser reports an error: a value that is
broken off is returned as far as it goes. How `std::stod` reads a number is the parameter `stod`.
-/

namespace ProtoJS.Npm

open Strings OrderedMap

/-- `JsonValue`; a number is an element of `δ`, and an object is a `std::map`. -/
inductive JsonValue (δ : Type) where
  | null
  | object (members : List (Text × JsonValue δ))
  | array (elements : List (JsonValue δ))
  | string (s : Text)
  | number (n : δ)
  | bool (b : Bool)

namespace JsonParser

def isJsonSpace (c : Char) : Bool := c = ' ' || c = '\t' || c = '\n' || c = '\r'

def skipWhitespace (text : Text) : Text := text.dropWhile isJsonSpace

/-- The next character, or a zero byte at the end. -/
def peek (text : Text) : Char := text.headD '\x00'

/-- The character that an escape stands for; the code of a `\u` is not looked at. -/
def unescape (e : Char) : Char :=
  if e = 'u' then '?'
  else if e = 'n' then '\n'
  else if e = 'r' then '\r'
  else if e = 't' then '\t'
  else e

/-- The loop of `parseString`, with the number of characters that the last escape still takes: the
one that says what it stands for, and four more after a `u`. -/
def readString : ℕ → Text → Text × Text
  | _, [] => ([], [])
  | skip + 1, _ :: rest => readString skip rest
  | 0, c :: rest =>
    if c = '"' then ([], rest)
    else if c = '\\' then
      let (s, after) := readString (if peek rest = 'u' then 5 else 1) rest
      (unescape (peek rest) :: s, after)
    else
      let (s, rest) := readString 0 rest
      (c :: s, rest)

def parseString (text : Text) : Text × Text := readString 0 text.tail

/-- A minus is part of a number only after its start. -/
def isNumberChar (started : Bool) (c : Char) : Bool :=
  c.isDigit || c = '.' || c = 'e' || c = 'E' || c = '+' || (c = '-' && started)

/-- The loop of `parseNumber`. -/
def scanNumber : Bool → Text → Text × Text
  | _, [] => ([], [])
  | started, c :: rest =>
    if isNumberChar started c then
      let (n, rest) := scanNumber true rest
      (c :: n, rest)
    else ([], c :: rest)

def numberText (text : Text) : Text × Text :=
  if peek text = '-' then
    let (n, rest) := scanNumber true text.tail
    ('-' :: n, rest)
  else scanNumber false text

/-- Reads as much of the word as is there, and one character more where it is not. -/
def expect : Text → Text → Text
  | [], text => text
  | _ :: _, [] => []
  | w :: word, c :: text => if c = w then expect word text else text

variable {δ : Type} [Zero δ] (stod : Text → Option δ)

/-- An exception of `stod` leaves the number zero. -/
def parseNumber (text : Text) : δ × Text :=
  let (n, rest) := numberText text
  ((stod n).getD 0, rest)

mutual

def parseValue : ℕ → Text → Option (JsonValue δ × Text)
  | 0, _ => none
  | fuel + 1, text =>
    let text := skipWhitespace text
    let c := peek text
    if c = '{' then do
      let (obj, rest) ← parseObject fuel text
      return (.object obj, rest)
    else if c = '[' then do
      let (arr, rest) ← parseArray fuel text
      return (.array arr, rest)
    else if c = '"' then
      let (s, rest) := parseString text
      some (.string s, rest)
    else if c = '-' ∨ c.isDigit then
      let (n, rest) := parseNumber stod text
      some (.number n, rest)
    else if c = 't' then some (.bool true, expect "true".toList text)
    else if c = 'f' then some (.bool false, expect "false".toList text)
    else if c = 'n' then some (.null, expect "null".toList text)
    else some (.null, text)

def parseObject : ℕ → Text → Option (List (Text × JsonValue δ) × Text)
  | 0, _ => none
  | fuel + 1, text =>
    let text := skipWhitespace text.tail
    if peek text = '}' then some ([], text.tail) else parseMembers fuel text []

/-- The loop of `parseObject`. -/
def parseMembers : ℕ → Text → List (Text × JsonValue δ) →
    Option (List (Text × JsonValue δ) × Text)
  | 0, _, _ => none
  | fuel + 1, text, obj =>
    let text := skipWhitespace text
    if peek text ≠ '"' then some (obj, text)
    else
      let (key, text) := parseString text
      let text := skipWhitespace text
      if peek text ≠ ':' then some (obj, text.tail)
      else do
        let (val, text) ← parseValue fuel (skipWhitespace text.tail)
        let obj := assign key val obj
        let text := skipWhitespace text
        if peek text = '}' then return (obj, text.tail)
        else if peek text ≠ ',' then return (obj, text.tail)
        else parseMembers fuel text.tail obj

def parseArray : ℕ → Text → Option (List (JsonValue δ) × Text)
  | 0, _ => none
  | fuel + 1, text =>
    let text := skipWhitespace text.tail
    if peek text = ']' then some ([], text.tail) else parseElements fuel text []

/-- The loop of `parseArray`. -/
def parseElements : ℕ → Text → List (JsonValue δ) → Option (List (JsonValue δ) × Text)
  | 0, _, _ => none
  | fuel + 1, text, arr => do
    let (val, text) ← parseValue fuel text
    let arr := arr ++ [val]
    let text := skipWhitespace text
    if peek text = ']' then return (arr, text.tail)
    else if peek text ≠ ',' then return (arr, text.tail)
    else parseElements fuel text.tail arr

end

section Lengths

theorem length_skipWhitespace_le (text : Text) : (skipWhitespace text).length ≤ text.length :=
  (List.dropWhile_suffix _).length_le

theorem length_readString_le (skip : ℕ) (text : Text) :
    (readString skip text).2.length ≤ text.length := by
  fun_induction readString skip text <;> grind

theorem length_parseString_le (text : Text) : (parseString text).2.length ≤ text.length - 1 := by
  have bound := length_readString_le 0 text.tail
  rwa [List.length_tail] at bound

theorem length_scanNumber_le (started : Bool) (text : Text) :
    (scanNumber started text).2.length ≤ text.length := by
  fun_induction scanNumber started text <;> grind

theorem length_numberText_le (text : Text) : (numberText text).2.length ≤ text.length := by
  unfold numberText
  split
  · have bound := length_scanNumber_le true text.tail
    simp only [List.length_tail] at bound ⊢
    omega
  · exact length_scanNumber_le false text

theorem length_expect_le (word text : Text) : (expect word text).length ≤ text.length := by
  fun_induction expect word text <;> grind

/-- A character that is no zero byte is there. -/
theorem length_pos_of_peek {text : Text} {c : Char} (next : peek text = c) (nonzero : c ≠ '\x00') :
    0 < text.length := by
  cases text with
  | nil => exact absurd next.symm nonzero
  | cons => simp

end Lengths

section Returns

/-- The parser returns, and it has not gone back. -/
def Returns {α : Type} (text : Text) (result : Option (α × Text)) : Prop :=
  ∃ read rest, result = some (read, rest) ∧ rest.length ≤ text.length

theorem Returns.map {α β : Type} {text text' : Text} {result : Option (α × Text)}
    (returns : Returns text' result) (shorter : text'.length ≤ text.length) (f : α → β) :
    Returns text (do let (read, rest) ← result; return (f read, rest)) := by
  obtain ⟨read, rest, rfl, bound⟩ := returns
  exact ⟨f read, rest, rfl, bound.trans shorter⟩

/-- The five functions return with so much fuel: a value needs three calls for every character. -/
structure ReturnsWith (fuel : ℕ) : Prop where
  value : ∀ text, 3 * text.length + 3 ≤ fuel → Returns text (parseValue stod fuel text)
  object : ∀ text, 0 < text.length → 3 * text.length + 2 ≤ fuel →
    Returns text (parseObject stod fuel text)
  members : ∀ text obj, 3 * text.length + 4 ≤ fuel → Returns text (parseMembers stod fuel text obj)
  array : ∀ text, 0 < text.length → 3 * text.length + 2 ≤ fuel →
    Returns text (parseArray stod fuel text)
  elements : ∀ text arr, 3 * text.length + 4 ≤ fuel →
    Returns text (parseElements stod fuel text arr)

namespace ReturnsWith

variable {stod} {fuel : ℕ}

theorem value_succ (ih : ReturnsWith stod fuel) (text : Text)
    (enough : 3 * text.length + 3 ≤ fuel + 1) :
    Returns text (parseValue stod (fuel + 1) text) := by
  have skipped := length_skipWhitespace_le text
  simp only [parseValue]
  generalize skipWhitespace text = text' at skipped
  split
  · rename_i brace
    have present := length_pos_of_peek brace (by decide)
    exact (ih.object text' present (by omega)).map skipped _
  · split
    · rename_i bracket
      have present := length_pos_of_peek bracket (by decide)
      exact (ih.array text' present (by omega)).map skipped _
    · split
      · have bound := length_parseString_le text'
        exact ⟨_, _, rfl, by omega⟩
      · split
        · have bound := length_numberText_le text'
          exact ⟨_, _, rfl, bound.trans skipped⟩
        · split
          · exact ⟨_, _, rfl, (length_expect_le _ text').trans skipped⟩
          · split
            · exact ⟨_, _, rfl, (length_expect_le _ text').trans skipped⟩
            · split
              · exact ⟨_, _, rfl, (length_expect_le _ text').trans skipped⟩
              · exact ⟨_, _, rfl, skipped⟩

theorem object_succ (ih : ReturnsWith stod fuel) (text : Text) (present : 0 < text.length)
    (enough : 3 * text.length + 2 ≤ fuel + 1) :
    Returns text (parseObject stod (fuel + 1) text) := by
  have skipped := length_skipWhitespace_le text.tail
  rw [List.length_tail] at skipped
  simp only [parseObject]
  generalize skipWhitespace text.tail = text' at skipped
  split
  · refine ⟨_, _, rfl, ?_⟩
    rw [List.length_tail]
    omega
  · obtain ⟨read, rest, result, bound⟩ := ih.members text' [] (by omega)
    exact ⟨read, rest, result, by omega⟩

theorem members_succ (ih : ReturnsWith stod fuel) (text : Text) (obj : List (Text × JsonValue δ))
    (enough : 3 * text.length + 4 ≤ fuel + 1) :
    Returns text (parseMembers stod (fuel + 1) text obj) := by
  have skipped := length_skipWhitespace_le text
  simp only [parseMembers]
  generalize skipWhitespace text = text' at skipped
  split
  · exact ⟨_, _, rfl, skipped⟩
  · rename_i quote
    have quoted := length_pos_of_peek (not_not.mp quote) (by decide)
    have keyed := length_parseString_le text'
    have spaced := length_skipWhitespace_le (parseString text').2
    generalize skipWhitespace (parseString text').2 = text'' at spaced
    split
    · refine ⟨_, _, rfl, ?_⟩
      rw [List.length_tail]
      omega
    · have again := length_skipWhitespace_le text''.tail
      rw [List.length_tail] at again
      obtain ⟨val, rest, result, bound⟩ := ih.value (skipWhitespace text''.tail) (by omega)
      have after := length_skipWhitespace_le rest
      simp only [result, bind, Option.bind_some, pure]
      generalize skipWhitespace rest = rest' at after
      have shorter : rest'.tail.length ≤ rest'.length := by simp
      split
      · exact ⟨_, _, rfl, by omega⟩
      · split
        · exact ⟨_, _, rfl, by omega⟩
        · obtain ⟨read, rest, result, bound⟩ := ih.members rest'.tail
            (assign (parseString text').1 val obj) (by omega)
          exact ⟨read, rest, result, by omega⟩

theorem array_succ (ih : ReturnsWith stod fuel) (text : Text) (present : 0 < text.length)
    (enough : 3 * text.length + 2 ≤ fuel + 1) :
    Returns text (parseArray stod (fuel + 1) text) := by
  have skipped := length_skipWhitespace_le text.tail
  rw [List.length_tail] at skipped
  simp only [parseArray]
  generalize skipWhitespace text.tail = text' at skipped
  split
  · refine ⟨_, _, rfl, ?_⟩
    rw [List.length_tail]
    omega
  · obtain ⟨read, rest, result, bound⟩ := ih.elements text' [] (by omega)
    exact ⟨read, rest, result, by omega⟩

theorem elements_succ (ih : ReturnsWith stod fuel) (text : Text) (arr : List (JsonValue δ))
    (enough : 3 * text.length + 4 ≤ fuel + 1) :
    Returns text (parseElements stod (fuel + 1) text arr) := by
  obtain ⟨val, rest, result, bound⟩ := ih.value text (by omega)
  have after := length_skipWhitespace_le rest
  simp only [parseElements, result, bind, Option.bind_some, pure]
  generalize skipWhitespace rest = rest' at after
  have shorter : rest'.tail.length = rest'.length - 1 := List.length_tail
  split
  · exact ⟨_, _, rfl, by omega⟩
  · split
    · exact ⟨_, _, rfl, by omega⟩
    · rename_i comma
      have present := length_pos_of_peek (not_not.mp comma) (by decide)
      obtain ⟨read, rest, result, bound⟩ := ih.elements rest'.tail (arr ++ [val]) (by omega)
      exact ⟨read, rest, result, by omega⟩

end ReturnsWith

theorem returnsWith (fuel : ℕ) : ReturnsWith stod fuel := by
  induction fuel with
  | zero => constructor <;> intros <;> omega
  | succ fuel ih =>
    exact ⟨ih.value_succ, ih.object_succ, ih.members_succ, ih.array_succ, ih.elements_succ⟩

theorem isSome_parseValue (text : Text) :
    (parseValue stod (3 * text.length + 3) text).isSome := by
  obtain ⟨read, rest, result, _⟩ := (returnsWith stod _).value text le_rfl
  rw [result]
  rfl

end Returns

end JsonParser

variable {δ : Type} [Zero δ]

/-- The text after the value is not looked at. -/
def JsonParse (stod : Text → Option δ) (json : Text) : JsonValue δ :=
  let text := JsonParser.skipWhitespace json
  if text = [] then .null
  else ((JsonParser.parseValue stod (3 * text.length + 3) text).get
    (JsonParser.isSome_parseValue stod text)).1

end ProtoJS.Npm
