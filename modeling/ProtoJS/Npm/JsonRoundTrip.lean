import ProtoJS.Npm.JsonSyntax

/-! # Reading back what was written

The parser reads each phrase of the grammar to its end and no further, whatever follows it. The
proof goes along the derivation of the text: what a function of the parser does next depends on one
character, and the derivation says which one that is.
-/

namespace ProtoJS.Npm

open Strings OrderedMap JsonParser

namespace JsonParser

/-- What may follow a number. -/
def Ends (rest : Text) : Prop := ∀ c, rest.head? = some c → isNumberChar true c = false

section Tokens

variable {w rest text : Text} {c : Char}

theorem ends_cons : Ends (c :: rest) ↔ isNumberChar true c = false := by simp [Ends]

theorem not_isNumberChar_of_isJsonSpace (space : isJsonSpace c = true) :
    isNumberChar true c = false := by
  simp only [isJsonSpace, Bool.or_eq_true, decide_eq_true_eq] at space
  rcases space with ((rfl | rfl) | rfl) | rfl <;> rfl

theorem ends_white_append (white : White w) (ends : Ends rest) : Ends (w ++ rest) := by
  cases w with
  | nil => exact ends
  | cons c w => exact ends_cons.mpr (not_isNumberChar_of_isJsonSpace (white c List.mem_cons_self))

theorem skipWhitespace_append (white : White w) (text : Text) :
    skipWhitespace (w ++ text) = skipWhitespace text :=
  List.dropWhile_append_of_pos white

@[simp] theorem skipWhitespace_cons (black : isJsonSpace c = false) (text : Text) :
    skipWhitespace (c :: text) = c :: text := by
  rw [skipWhitespace, List.dropWhile_cons_of_neg (by simp [black])]

@[simp] theorem peek_cons (c : Char) (text : Text) : peek (c :: text) = c := rfl

theorem skipWhitespace_idem (text : Text) :
    skipWhitespace (skipWhitespace text) = skipWhitespace text := by
  rw [skipWhitespace, skipWhitespace, List.dropWhile_idempotent]

theorem scanNumber_append {digits : Text} (inside : ∀ c ∈ digits, isNumberChar true c = true)
    (ends : Ends rest) : scanNumber true (digits ++ rest) = (digits, rest) := by
  induction digits with
  | nil =>
    cases rest with
    | nil => rfl
    | cons c rest => simp [scanNumber, ends_cons.mp ends]
  | cons c digits ih =>
    rw [List.forall_mem_cons] at inside
    simp [scanNumber, inside.1, ih inside.2]

/-- A number is read to its end. -/
theorem numberText_append (number : IsNumber text) (ends : Ends rest) :
    numberText (text ++ rest) = (text, rest) := by
  obtain ⟨c, digits, rfl, start, inside⟩ := number.cons
  rw [numberText, List.cons_append, peek_cons]
  split
  · rename_i minus
    subst minus
    rw [List.tail_cons, scanNumber_append inside ends]
  · rename_i unsigned
    have digit : isNumberChar false c = true :=
      isNumberChar_of_isDigit (start.resolve_left unsigned)
    rw [scanNumber, if_pos digit, scanNumber_append inside ends]

theorem unescape_of_mem {e : Char} (known : (e, c) ∈ escapes) : e ≠ 'u' ∧ unescape e = c := by
  simp only [escapes, List.mem_cons, Prod.mk.injEq, List.not_mem_nil, or_false] at known
  rcases known with ⟨rfl, rfl⟩ | ⟨rfl, rfl⟩ | ⟨rfl, rfl⟩ | ⟨rfl, rfl⟩ | ⟨rfl, rfl⟩ | ⟨rfl, rfl⟩ <;>
    exact ⟨by decide, rfl⟩

/-- A string is read up to the quote that closes it. -/
theorem readString_append {s body : Text} (escaped : Escaped s body) (rest : Text) :
    readString 0 (body ++ '"' :: rest) = (s, rest) := by
  induction escaped with
  | nil => rfl
  | raw noQuote noBackslash _ ih => simp [readString, noQuote, noBackslash, ih]
  | escape known _ ih =>
    obtain ⟨noUnicode, stands⟩ := unescape_of_mem known
    simp [readString, noUnicode, stands, ih]

theorem parseString_append {s body : Text} (escaped : Escaped s body) (rest : Text) :
    parseString ('"' :: (body ++ '"' :: rest)) = (s, rest) := readString_append escaped rest

end Tokens

section Steps

variable {δ : Type} [Zero δ] (stod : Text → Option δ) {fuel : ℕ} {c : Char} {text rest : Text}

theorem parseValue_skipWhitespace (fuel : ℕ) (text : Text) :
    parseValue stod fuel (skipWhitespace text) = parseValue stod fuel text := by
  cases fuel with
  | zero => rfl
  | succ fuel => simp only [parseValue, skipWhitespace_idem]

theorem parseElements_skipWhitespace (fuel : ℕ) (text : Text) (arr : List (JsonValue δ)) :
    parseElements stod fuel (skipWhitespace text) arr = parseElements stod fuel text arr := by
  cases fuel with
  | zero => rfl
  | succ fuel => simp only [parseElements, parseValue_skipWhitespace]

theorem parseMembers_skipWhitespace (fuel : ℕ) (text : Text) (obj : List (Text × JsonValue δ)) :
    parseMembers stod fuel (skipWhitespace text) obj = parseMembers stod fuel text obj := by
  cases fuel with
  | zero => rfl
  | succ fuel => simp only [parseMembers, skipWhitespace_idem]

theorem parseValue_brace (fuel : ℕ) (text : Text) : parseValue stod (fuel + 1) ('{' :: text) =
    (parseObject stod fuel ('{' :: text)).map fun r => (.object r.1, r.2) := by
  rw [parseValue, skipWhitespace_cons rfl]
  simp only [peek_cons, if_true]
  cases parseObject stod fuel ('{' :: text) <;> rfl

theorem parseValue_bracket (fuel : ℕ) (text : Text) : parseValue stod (fuel + 1) ('[' :: text) =
    (parseArray stod fuel ('[' :: text)).map fun r => (.array r.1, r.2) := by
  rw [parseValue, skipWhitespace_cons rfl]
  simp only [peek_cons, Char.reduceEq, if_false, if_true]
  cases parseArray stod fuel ('[' :: text) <;> rfl

theorem parseValue_quote (fuel : ℕ) (text : Text) : parseValue stod (fuel + 1) ('"' :: text) =
    some (.string (parseString ('"' :: text)).1, (parseString ('"' :: text)).2) := by
  rw [parseValue, skipWhitespace_cons rfl]
  simp only [peek_cons, Char.reduceEq, if_false, if_true]

theorem parseValue_digit (start : c = '-' ∨ c.isDigit = true) (fuel : ℕ) (text : Text) :
    parseValue stod (fuel + 1) (c :: text) =
      some (.number (parseNumber stod (c :: text)).1, (parseNumber stod (c :: text)).2) := by
  have black : isJsonSpace c = false ∧ c ≠ '{' ∧ c ≠ '[' ∧ c ≠ '"' := by
    refine ⟨?_, ?_, ?_, ?_⟩
    · by_contra space
      simp only [isJsonSpace, Bool.not_eq_false, Bool.or_eq_true, decide_eq_true_eq] at space
      rcases space with ((rfl | rfl) | rfl) | rfl <;> exact absurd start (by decide)
    all_goals
      rintro rfl
      exact absurd start (by decide)
  obtain ⟨noSpace, noBrace, noBracket, noQuote⟩ := black
  rw [parseValue, skipWhitespace_cons noSpace]
  simp only [peek_cons, noBrace, noBracket, noQuote, start, if_false, if_true]

/-- The end of an array, or its next element. -/
theorem parseElements_succ {v : JsonValue δ} {after : Text} {arr : List (JsonValue δ)}
    (value : parseValue stod fuel text = some (v, after))
    (next : skipWhitespace after = c :: rest) :
    parseElements stod (fuel + 1) text arr =
      if c = ',' then parseElements stod fuel rest (arr ++ [v]) else some (arr ++ [v], rest) := by
  simp only [parseElements, value, bind, Option.bind_some, next, peek_cons, List.tail_cons, pure,
    ne_eq, ite_not]
  split
  · rename_i close
    subst close
    rfl
  · rfl

/-- The end of an object, or its next member. -/
theorem parseMembers_succ {key afterKey afterColon after : Text} {v : JsonValue δ}
    {obj : List (Text × JsonValue δ)} (string : parseString ('"' :: text) = (key, afterKey))
    (colon : skipWhitespace afterKey = ':' :: afterColon)
    (value : parseValue stod fuel afterColon = some (v, after))
    (next : skipWhitespace after = c :: rest) :
    parseMembers stod (fuel + 1) ('"' :: text) obj =
      if c = ',' then parseMembers stod fuel rest (assign key v obj)
      else some (assign key v obj, rest) := by
  rw [parseMembers, skipWhitespace_cons rfl]
  simp only [string, colon, parseValue_skipWhitespace, value, bind, Option.bind_some, next,
    peek_cons, List.tail_cons, pure, ne_eq, ite_not, if_true]
  split
  · rename_i close
    subst close
    rfl
  · rfl

end Steps

section Phrases

variable {δ : Type} [Zero δ] (stod : Text → Option δ)

def ReadsValue (v : JsonValue δ) (t : Text) : Prop :=
  ∀ rest fuel, Ends rest → 3 * (t ++ rest).length + 3 ≤ fuel →
    parseValue stod fuel (t ++ rest) = some (v, rest)

def ReadsElements (vs : List (JsonValue δ)) (t : Text) : Prop :=
  ∀ rest fuel arr, 3 * (t ++ rest).length + 4 ≤ fuel →
    parseElements stod fuel (t ++ rest) arr = some (arr ++ vs, rest)

def ReadsMembers (ms : List (Text × JsonValue δ)) (t : Text) : Prop :=
  ∀ rest fuel obj, 3 * (t ++ rest).length + 4 ≤ fuel →
    parseMembers stod fuel (t ++ rest) obj = some (assignAll obj ms, rest)

/-- A phrase is read to its end. After an element or a member the next character decides whether
the loop goes on. -/
def Reads : Phrase δ → Text → Prop
  | .value v, t => ReadsValue stod v t
  | .elements vs, t => ReadsElements stod vs t
  | .moreElements vs, t => ∃ c u, t = c :: u ∧ isNumberChar true c = false ∧
      isJsonSpace c = false ∧ ∀ rest fuel arr, 3 * (u ++ rest).length + 4 ≤ fuel →
        (if c = ',' then parseElements stod fuel (u ++ rest) arr else some (arr, u ++ rest)) =
          some (arr ++ vs, rest)
  | .members ms, t => ReadsMembers stod ms t
  | .moreMembers ms, t => ∃ c u, t = c :: u ∧ isNumberChar true c = false ∧
      isJsonSpace c = false ∧ ∀ rest fuel obj, 3 * (u ++ rest).length + 4 ≤ fuel →
        (if c = ',' then parseMembers stod fuel (u ++ rest) obj else some (obj, u ++ rest)) =
          some (assignAll obj ms, rest)

variable {stod} {v : JsonValue δ} {vs : List (JsonValue δ)} {ms listed m : List (Text × JsonValue δ)}
  {t u w w' : Text}

theorem readsValue_number {n : δ} (number : IsNumber t) (exact : stod t = some n) :
    ReadsValue stod (.number n) t := by
  intro rest fuel ends enough
  obtain ⟨fuel, rfl⟩ : ∃ f, fuel = f + 1 := ⟨fuel - 1, by omega⟩
  obtain ⟨c, digits, same, start, _⟩ := number.cons
  have read : parseNumber stod (t ++ rest) = (n, rest) := by
    rw [parseNumber, numberText_append number ends]
    simp only [exact, Option.getD_some]
  rw [same, List.cons_append] at read ⊢
  rw [parseValue_digit stod start, read]

theorem readsValue_string {s body : Text} (escaped : Escaped s body) :
    ReadsValue stod (.string s) ('"' :: (body ++ ['"'])) := by
  intro rest fuel _ enough
  obtain ⟨fuel, rfl⟩ : ∃ f, fuel = f + 1 := ⟨fuel - 1, by omega⟩
  have flat : '"' :: (body ++ ['"']) ++ rest = '"' :: (body ++ '"' :: rest) := by simp
  rw [flat, parseValue_quote, parseString_append escaped]

theorem readsValue_emptyArray (white : White w) :
    ReadsValue stod (.array []) ('[' :: (w ++ [']'])) := by
  intro rest fuel _ enough
  obtain ⟨fuel, rfl⟩ : ∃ f, fuel = f + 2 := ⟨fuel - 2, by omega⟩
  have closed : skipWhitespace (w ++ [']'] ++ rest) = ']' :: rest := by
    rw [List.append_assoc, skipWhitespace_append white]
    rfl
  rw [List.cons_append, parseValue_bracket, parseArray]
  simp only [List.tail_cons, closed, peek_cons, if_true, Option.map_some]

theorem readsValue_emptyObject (white : White w) :
    ReadsValue stod (.object []) ('{' :: (w ++ ['}'])) := by
  intro rest fuel _ enough
  obtain ⟨fuel, rfl⟩ : ∃ f, fuel = f + 2 := ⟨fuel - 2, by omega⟩
  have closed : skipWhitespace (w ++ ['}'] ++ rest) = '}' :: rest := by
    rw [List.append_assoc, skipWhitespace_append white]
    rfl
  rw [List.cons_append, parseValue_brace, parseObject]
  simp only [List.tail_cons, closed, peek_cons, if_true, Option.map_some]

/-- Elements that do not start with a bracket. -/
theorem readsValue_array (reads : ReadsElements stod vs t)
    (starts : ∀ rest, peek (skipWhitespace (t ++ rest)) ≠ ']') :
    ReadsValue stod (.array vs) ('[' :: t) := by
  intro rest fuel _ enough
  simp only [List.cons_append, List.length_cons] at enough ⊢
  obtain ⟨fuel, rfl⟩ : ∃ f, fuel = f + 2 := ⟨fuel - 2, by omega⟩
  rw [parseValue_bracket, parseArray, List.tail_cons]
  simp only [if_neg (starts rest), parseElements_skipWhitespace]
  rw [reads rest fuel [] (by omega)]
  rfl

theorem readsValue_object (reads : ReadsMembers stod listed t)
    (starts : ∀ rest, peek (skipWhitespace (t ++ rest)) ≠ '}') (same : assignAll [] listed = m) :
    ReadsValue stod (.object m) ('{' :: t) := by
  intro rest fuel _ enough
  simp only [List.cons_append, List.length_cons] at enough ⊢
  obtain ⟨fuel, rfl⟩ : ∃ f, fuel = f + 2 := ⟨fuel - 2, by omega⟩
  rw [parseValue_brace, parseObject, List.tail_cons]
  simp only [if_neg (starts rest), parseMembers_skipWhitespace]
  rw [reads rest fuel [] (by omega), same]
  rfl

/-- One element, and what the character after it decides. -/
theorem readsElements_cons (before : White w) (value : ReadsValue stod v t) (after : White w')
    (more : Reads stod (.moreElements vs) u) :
    ReadsElements stod (v :: vs) (w ++ (t ++ (w' ++ u))) := by
  obtain ⟨c, u, rfl, noNumber, black, more⟩ := more
  intro rest fuel arr enough
  obtain ⟨fuel, rfl⟩ : ∃ f, fuel = f + 1 := ⟨fuel - 1, by omega⟩
  simp only [List.append_assoc, List.cons_append, List.length_append, List.length_cons]
    at enough ⊢
  have ends : Ends (w' ++ c :: (u ++ rest)) := ends_white_append after (ends_cons.mpr noNumber)
  have first := value (w' ++ c :: (u ++ rest)) fuel ends
    (by simp only [List.length_append, List.length_cons]; omega)
  have next : skipWhitespace (w' ++ c :: (u ++ rest)) = c :: (u ++ rest) := by
    rw [skipWhitespace_append after, skipWhitespace_cons black]
  rw [← parseElements_skipWhitespace, skipWhitespace_append before, parseElements_skipWhitespace,
    parseElements_succ stod first next, more rest fuel (arr ++ [v])
      (by simp only [List.length_append]; omega)]
  simp

theorem readsMembers_cons {w₂ w₃ k body : Text} (before : White w) (key : Escaped k body)
    (beforeColon : White w₂) (afterColon : White w₃) (value : ReadsValue stod v t)
    (after : White w') (more : Reads stod (.moreMembers ms) u) :
    ReadsMembers stod ((k, v) :: ms)
      (w ++ '"' :: (body ++ '"' :: (w₂ ++ ':' :: (w₃ ++ (t ++ (w' ++ u)))))) := by
  obtain ⟨c, u, rfl, noNumber, black, more⟩ := more
  intro rest fuel obj enough
  obtain ⟨fuel, rfl⟩ : ∃ f, fuel = f + 1 := ⟨fuel - 1, by omega⟩
  simp only [List.append_assoc, List.cons_append, List.length_append, List.length_cons]
    at enough ⊢
  have ends : Ends (w' ++ c :: (u ++ rest)) := ends_white_append after (ends_cons.mpr noNumber)
  have first : parseValue stod fuel (w₃ ++ (t ++ (w' ++ c :: (u ++ rest)))) =
      some (v, w' ++ c :: (u ++ rest)) := by
    rw [← parseValue_skipWhitespace, skipWhitespace_append afterColon, parseValue_skipWhitespace]
    exact value _ fuel ends (by simp only [List.length_append, List.length_cons]; omega)
  have colon : skipWhitespace (w₂ ++ ':' :: (w₃ ++ (t ++ (w' ++ c :: (u ++ rest))))) =
      ':' :: (w₃ ++ (t ++ (w' ++ c :: (u ++ rest)))) := by
    rw [skipWhitespace_append beforeColon, skipWhitespace_cons rfl]
  have next : skipWhitespace (w' ++ c :: (u ++ rest)) = c :: (u ++ rest) := by
    rw [skipWhitespace_append after, skipWhitespace_cons black]
  rw [← parseMembers_skipWhitespace, skipWhitespace_append before, parseMembers_skipWhitespace,
    parseMembers_succ stod (parseString_append key _) colon first next,
    more rest fuel (assign k v obj) (by simp only [List.length_append]; omega)]
  rfl

theorem peek_skipWhitespace (white : White w) {c : Char} (black : isJsonSpace c = false)
    (text : Text) : peek (skipWhitespace (w ++ c :: text)) = c := by
  rw [skipWhitespace_append white, skipWhitespace_cons black, peek_cons]

end Phrases

end JsonParser

section Starts

variable {δ : Type} {σ : Writing δ}

theorem Written.peek_elements {vs : List (JsonValue δ)} {t : Text}
    (written : Written σ (.elements vs) t) (rest : Text) :
    peek (skipWhitespace (t ++ rest)) ≠ ']' := by
  cases written with
  | elements before value =>
    obtain ⟨c, t, rfl, start⟩ := value.exists_cons
    obtain ⟨black, noBracket, _⟩ := isValueStart_not start
    rw [List.append_assoc, List.cons_append, List.cons_append, peek_skipWhitespace before black]
    exact noBracket

theorem Written.peek_members {ms : List (Text × JsonValue δ)} {t : Text}
    (written : Written σ (.members ms) t) (rest : Text) :
    peek (skipWhitespace (t ++ rest)) ≠ '}' := by
  cases written with
  | members before =>
    rw [List.append_assoc, List.cons_append, peek_skipWhitespace before rfl]
    decide

end Starts

section RoundTrip

variable {δ : Type} [Zero δ] {stod : Text → Option δ} {ofInt : ℤ → δ}

/-- `std::stod` is exact on the integers that a double can tell apart from their neighbours. -/
def ExactOnIntegers (stod : Text → Option δ) (ofInt : ℤ → δ) : Prop :=
  ∀ text (i : ℤ), |i| < 2 ^ 53 → IsNumber text → numberValue text = i → stod text = some (ofInt i)

/-- By induction on the derivation, every phrase is read to its end. -/
theorem Written.reads (exact : ExactOnIntegers stod ofInt) {phrase : Phrase δ} {t : Text}
    (written : Written (integers ofInt) phrase t) : Reads stod phrase t := by
  induction written with
  | null =>
    intro rest fuel _ enough
    obtain ⟨fuel, rfl⟩ : ∃ f, fuel = f + 1 := ⟨fuel - 1, by omega⟩
    rfl
  | isTrue =>
    intro rest fuel _ enough
    obtain ⟨fuel, rfl⟩ : ∃ f, fuel = f + 1 := ⟨fuel - 1, by omega⟩
    rfl
  | isFalse =>
    intro rest fuel _ enough
    obtain ⟨fuel, rfl⟩ : ∃ f, fuel = f + 1 := ⟨fuel - 1, by omega⟩
    rfl
  | number isNumber written =>
    obtain ⟨i, bound, rfl, value⟩ := written
    exact readsValue_number isNumber (exact _ i bound isNumber value)
  | string written => exact readsValue_string written
  | emptyArray white => exact readsValue_emptyArray white
  | array elements ih => exact readsValue_array ih elements.peek_elements
  | emptyObject white empty =>
    cases empty.2.nil_eq
    exact readsValue_emptyObject white
  | object lists members ih =>
    exact readsValue_object ih members.peek_members (assignAll_of_perm lists.1 lists.2)
  | elements before value after more valueReads moreReads =>
    exact readsElements_cons before valueReads after moreReads
  | endArray =>
    refine ⟨']', [], rfl, rfl, rfl, ?_⟩
    intro rest fuel arr _
    simp
  | nextElement elements ih =>
    refine ⟨',', _, rfl, rfl, rfl, ?_⟩
    intro rest fuel arr enough
    rw [if_pos rfl]
    exact ih rest fuel arr enough
  | members before key beforeColon afterColon value after more valueReads moreReads =>
    exact readsMembers_cons before key beforeColon afterColon valueReads after moreReads
  | endObject =>
    refine ⟨'}', [], rfl, rfl, rfl, ?_⟩
    intro rest fuel obj _
    rfl
  | nextMember members ih =>
    refine ⟨',', _, rfl, rfl, rfl, ?_⟩
    intro rest fuel obj enough
    rw [if_pos rfl]
    exact ih rest fuel obj enough

/-- What the parser returns is what any call with fuel enough returns. -/
theorem jsonParse_eq {text rest : Text} {v : JsonValue δ} (present : skipWhitespace text ≠ [])
    (reads : parseValue stod (3 * (skipWhitespace text).length + 3) (skipWhitespace text) =
      some (v, rest)) : JsonParse stod text = v := by
  simp only [JsonParse, if_neg present, reads, Option.get_some]

/-- A text that stands for a value is parsed to it, with any white space and any order of the
members of an object. -/
theorem jsonParse_of_writtenText (exact : ExactOnIntegers stod ofInt) {v : JsonValue δ}
    {text : Text} (written : WrittenText (integers ofInt) v text) : JsonParse stod text = v := by
  obtain ⟨w, t, w', before, value, after, rfl⟩ := written
  obtain ⟨c, digits, same, start⟩ := value.exists_cons
  have skipped : skipWhitespace (w ++ (t ++ w')) = t ++ w' := by
    rw [skipWhitespace_append before, same, List.cons_append,
      skipWhitespace_cons (isValueStart_not start).1]
  have ends : Ends w' := by
    have nothing : Ends [] := by simp [Ends]
    have ends := ends_white_append after nothing
    rwa [List.append_nil] at ends
  have reads : ReadsValue stod v t := value.reads exact
  apply jsonParse_eq
  · rw [skipped, same]
    simp
  · rw [skipped]
    exact reads w' _ ends le_rfl

theorem exactOnIntegers_numberValue :
    ExactOnIntegers (fun text => some (numberValue text)) (Int.cast : ℤ → ℚ) := by
  intro text i _ _ same
  exact congrArg some same

/-- Two members out of order, an escape, and a brace in a string. -/
theorem jsonParse_of_writtenText_members :
    JsonParse (fun text => some (numberValue text))
        " \x7b\"b\" :[1,true] ,\"a\\n\":\"\x7d\"\x7d".toList =
      .object [("a\n".toList, .string ['}']), (['b'], .array [.number 1, .bool true])] := by
  have white : White [' '] := by simp [White, isJsonSpace]
  have blank : White [] := by simp [White]
  have one : IsNumber ['1'] := ⟨[], ['1'], [], [], .inl rfl,
    .inr ⟨⟨by simp, by simp⟩, by simp⟩, .inl rfl, .inl rfl, rfl⟩
  have number : Written (integers Int.cast) (.value (.number (1 : ℚ))) ['1'] :=
    .number one ⟨1, by decide, by simp, by simp [numberValue, exponentValue, Nat.ofDigitChars]⟩
  have array : Written (integers Int.cast)
      (.value (.array [.number (1 : ℚ), .bool true])) "[1,true]".toList :=
    .array (.elements blank number blank (.nextElement (.elements blank .isTrue blank .endArray)))
  have brace : Escaped ['}'] ['}'] := .raw (by decide) (by decide) .nil
  have quoted : Written (integers (Int.cast : ℤ → ℚ)) (.value (.string ['}']))
      ('"' :: (['}'] ++ ['"'])) := .string brace
  have keyA : Escaped "a\n".toList "a\\n".toList :=
    .raw (by decide) (by decide) (.escape (by decide) .nil)
  have keyB : Escaped ['b'] ['b'] := .raw (by decide) (by decide) .nil
  have members : Written (integers Int.cast) (.members [(['b'], .array [.number (1 : ℚ), .bool true]),
      ("a\n".toList, .string ['}'])]) "\"b\" :[1,true] ,\"a\\n\":\"\x7d\"\x7d".toList :=
    .members blank keyB white blank array white
      (.nextMember (.members blank keyA blank blank quoted blank .endObject))
  have lists : (integers (Int.cast : ℤ → ℚ)).object
      [(['b'], .array [.number 1, .bool true]), ("a\n".toList, .string ['}'])]
      [("a\n".toList, .string ['}']), (['b'], .array [.number 1, .bool true])] :=
    ⟨List.pairwise_pair.mpr (by decide), .swap ..⟩
  exact jsonParse_of_writtenText exactOnIntegers_numberValue
    ⟨[' '], _, [], white, .object lists members, blank, rfl⟩

end RoundTrip

end ProtoJS.Npm
