import ProtoJS.Npm.JsonParser

/-! # The JSON grammar

Which texts stand for a value. What a string, a number and the members of an object may look like
differs between the texts that the parser must read back and those that are JSON at all, so it is a
parameter of the grammar. Nothing is said about the encoding of characters beyond ASCII.
-/

namespace ProtoJS.Npm

open Strings OrderedMap JsonParser

/-- White space between tokens. -/
def White (w : Text) : Prop := ∀ c ∈ w, isJsonSpace c = true

section Numbers

def Digits (text : Text) : Prop := text ≠ [] ∧ ∀ c ∈ text, c.isDigit = true

/-- No digit follows a leading zero. -/
def IsWhole (text : Text) : Prop := text = ['0'] ∨ Digits text ∧ text.head? ≠ some '0'

def IsFraction (text : Text) : Prop := text = [] ∨ ∃ digits, Digits digits ∧ text = '.' :: digits

def IsExponent (text : Text) : Prop :=
  text = [] ∨ ∃ e sign digits, (e = 'e' ∨ e = 'E') ∧ (sign = [] ∨ sign = ['+'] ∨ sign = ['-']) ∧
    Digits digits ∧ text = e :: (sign ++ digits)

def IsNumber (text : Text) : Prop :=
  ∃ sign whole fraction exponent, (sign = [] ∨ sign = ['-']) ∧ IsWhole whole ∧
    IsFraction fraction ∧ IsExponent exponent ∧ text = sign ++ (whole ++ (fraction ++ exponent))

/-- The number that the digits of an exponent stand for. -/
def exponentValue (exponent : Text) : ℤ :=
  if exponent.head? = some '-' then -Nat.ofDigitChars 10 exponent.tail 0
  else if exponent.head? = some '+' then Nat.ofDigitChars 10 exponent.tail 0
  else Nat.ofDigitChars 10 exponent 0

/-- The number that a text stands for. -/
def numberValue (text : Text) : ℚ :=
  let unsigned := if text.head? = some '-' then text.tail else text
  let significand := unsigned.takeWhile fun c => c ≠ 'e' ∧ c ≠ 'E'
  let exponent := (unsigned.dropWhile fun c => c ≠ 'e' ∧ c ≠ 'E').tail
  let whole := significand.takeWhile (· ≠ '.')
  let fraction := (significand.dropWhile (· ≠ '.')).tail
  let magnitude : ℚ := Nat.ofDigitChars 10 (whole ++ fraction) 0 *
    10 ^ (exponentValue exponent - fraction.length)
  if text.head? = some '-' then -magnitude else magnitude

variable {text : Text}

theorem isNumberChar_of_isDigit {started : Bool} {c : Char} (digit : c.isDigit = true) :
    isNumberChar started c = true := by
  simp [isNumberChar, digit]

theorem Digits.isNumberChar (digits : Digits text) : ∀ c ∈ text, isNumberChar true c = true :=
  fun c member => isNumberChar_of_isDigit (digits.2 c member)

theorem IsWhole.digits (whole : IsWhole text) : Digits text := by
  rcases whole with rfl | ⟨digits, _⟩
  · exact ⟨by decide, by simp⟩
  · exact digits

theorem IsFraction.isNumberChar (fraction : IsFraction text) :
    ∀ c ∈ text, isNumberChar true c = true := by
  rcases fraction with rfl | ⟨digits, isDigits, rfl⟩
  · simp
  · rw [List.forall_mem_cons]
    exact ⟨by decide, isDigits.isNumberChar⟩

theorem IsExponent.isNumberChar (exponent : IsExponent text) :
    ∀ c ∈ text, isNumberChar true c = true := by
  rcases exponent with rfl | ⟨e, sign, digits, isE, isSign, isDigits, rfl⟩
  · simp
  · rw [List.forall_mem_cons, List.forall_mem_append]
    refine ⟨?_, ?_, isDigits.isNumberChar⟩
    · rcases isE with rfl | rfl <;> rfl
    · rcases isSign with rfl | rfl | rfl <;> simp [JsonParser.isNumberChar]

/-- A number starts with a minus or a digit, and goes on with characters of numbers. -/
theorem IsNumber.cons (number : IsNumber text) : ∃ c rest, text = c :: rest ∧
    (c = '-' ∨ c.isDigit = true) ∧ ∀ d ∈ rest, isNumberChar true d = true := by
  obtain ⟨sign, whole, fraction, exponent, isSign, isWhole, isFraction, isExponent, rfl⟩ := number
  have after : ∀ d ∈ fraction ++ exponent, isNumberChar true d = true := by
    rw [List.forall_mem_append]
    exact ⟨isFraction.isNumberChar, isExponent.isNumberChar⟩
  have digits := isWhole.digits
  rcases isSign with rfl | rfl
  · obtain ⟨c, whole, rfl⟩ := List.exists_cons_of_ne_nil digits.1
    refine ⟨c, whole ++ (fraction ++ exponent), rfl, .inr (digits.2 c List.mem_cons_self), ?_⟩
    rw [List.forall_mem_append]
    exact ⟨fun d member => digits.isNumberChar d (List.mem_cons_of_mem c member), after⟩
  · refine ⟨'-', whole ++ (fraction ++ exponent), rfl, .inl rfl, ?_⟩
    rw [List.forall_mem_append]
    exact ⟨digits.isNumberChar, after⟩

end Numbers

section Strings

/-- The escapes that stand for one character each, with these. -/
def escapes : List (Char × Char) :=
  [('"', '"'), ('\\', '\\'), ('/', '/'), ('n', '\n'), ('r', '\r'), ('t', '\t')]

/-- A string, and what stands for it between the quotes. -/
inductive Escaped : Text → Text → Prop
  | nil : Escaped [] []
  | raw {c s body} (noQuote : c ≠ '"') (noBackslash : c ≠ '\\') (rest : Escaped s body) :
    Escaped (c :: s) (c :: body)
  | escape {c e s body} (known : (e, c) ∈ escapes) (rest : Escaped s body) :
    Escaped (c :: s) ('\\' :: e :: body)

def isHexDigit (c : Char) : Bool :=
  c.isDigit || ('a' ≤ c && c ≤ 'f') || ('A' ≤ c && c ≤ 'F')

/-- What may stand between the quotes in JSON. -/
inductive IsStringBody : Text → Prop
  | nil : IsStringBody []
  | raw {c body} (noQuote : c ≠ '"') (noBackslash : c ≠ '\\') (noControl : 32 ≤ c.toNat)
    (rest : IsStringBody body) : IsStringBody (c :: body)
  | escape {e body} (known : e ∈ "\"\\/bfnrt".toList) (rest : IsStringBody body) :
    IsStringBody ('\\' :: e :: body)
  | unicode {hex body} (four : hex.length = 4) (hexadecimal : ∀ c ∈ hex, isHexDigit c = true)
    (rest : IsStringBody body) : IsStringBody ('\\' :: 'u' :: (hex ++ body))

end Strings

section Grammar

variable {δ : Type}

/-- How strings, numbers and the members of an object are written. -/
structure Writing (δ : Type) where
  string : Text → Text → Prop
  number : δ → Text → Prop
  /-- The members as they are listed, and the object. -/
  object : List (Text × JsonValue δ) → List (Text × JsonValue δ) → Prop

/-- The nonterminals: a value, and what follows an opening bracket or a comma, or a value in an
array or object. -/
inductive Phrase (δ : Type) where
  | value (v : JsonValue δ)
  | elements (vs : List (JsonValue δ))
  | moreElements (vs : List (JsonValue δ))
  | members (ms : List (Text × JsonValue δ))
  | moreMembers (ms : List (Text × JsonValue δ))

/-- The texts of a phrase. -/
inductive Written (σ : Writing δ) : Phrase δ → Text → Prop
  | null : Written σ (.value .null) "null".toList
  | isTrue : Written σ (.value (.bool true)) "true".toList
  | isFalse : Written σ (.value (.bool false)) "false".toList
  | number {n t} (isNumber : IsNumber t) (written : σ.number n t) : Written σ (.value (.number n)) t
  | string {s body} (written : σ.string s body) :
    Written σ (.value (.string s)) ('"' :: (body ++ ['"']))
  | emptyArray {w} (white : White w) : Written σ (.value (.array [])) ('[' :: (w ++ [']']))
  | array {vs t} (elements : Written σ (.elements vs) t) : Written σ (.value (.array vs)) ('[' :: t)
  | emptyObject {w m} (white : White w) (empty : σ.object [] m) :
    Written σ (.value (.object m)) ('{' :: (w ++ ['}']))
  | object {listed m t} (lists : σ.object listed m) (members : Written σ (.members listed) t) :
    Written σ (.value (.object m)) ('{' :: t)
  | elements {w w' v vs t u} (before : White w) (value : Written σ (.value v) t) (after : White w')
    (more : Written σ (.moreElements vs) u) : Written σ (.elements (v :: vs)) (w ++ (t ++ (w' ++ u)))
  | endArray : Written σ (.moreElements []) [']']
  | nextElement {vs t} (elements : Written σ (.elements vs) t) :
    Written σ (.moreElements vs) (',' :: t)
  | members {w₁ w₂ w₃ w₄ k body v ms t u} (before : White w₁) (key : σ.string k body)
    (beforeColon : White w₂) (afterColon : White w₃) (value : Written σ (.value v) t)
    (after : White w₄) (more : Written σ (.moreMembers ms) u) :
    Written σ (.members ((k, v) :: ms))
      (w₁ ++ '"' :: (body ++ '"' :: (w₂ ++ ':' :: (w₃ ++ (t ++ (w₄ ++ u))))))
  | endObject : Written σ (.moreMembers []) ['}']
  | nextMember {ms t} (members : Written σ (.members ms) t) : Written σ (.moreMembers ms) (',' :: t)

/-- A value with white space around it. -/
def WrittenText (σ : Writing δ) (v : JsonValue δ) (text : Text) : Prop :=
  ∃ w t w', White w ∧ Written σ (.value v) t ∧ White w' ∧ text = w ++ (t ++ w')

/-- Integers that a double stands for exactly, strings with the short escapes, and objects with
their members in any order. -/
def integers (ofInt : ℤ → δ) : Writing δ where
  string := Escaped
  number x text := ∃ i : ℤ, |i| < 2 ^ 53 ∧ x = ofInt i ∧ numberValue text = i
  object listed m := Sorted m ∧ listed.Perm m

/-- All of JSON, whatever it stands for. -/
def anyJson : Writing Unit where
  string _ body := IsStringBody body
  number _ _ := True
  object _ _ := True

def ValidJson (text : Text) : Prop := ∃ v, WrittenText anyJson v text

variable {σ : Writing δ} {v : JsonValue δ} {text : Text}

/-- The characters that a value starts with. -/
def isValueStart (c : Char) : Bool :=
  c = '{' || c = '[' || c = '"' || c = '-' || c.isDigit || c = 't' || c = 'f' || c = 'n'

theorem Written.exists_cons (written : Written σ (.value v) text) :
    ∃ c rest, text = c :: rest ∧ isValueStart c = true := by
  cases written with
  | number isNumber =>
    obtain ⟨c, rest, rfl, start, _⟩ := isNumber.cons
    refine ⟨c, rest, rfl, ?_⟩
    rcases start with rfl | digit
    · decide
    · simp [isValueStart, digit]
  | _ => exact ⟨_, _, rfl, by decide⟩

/-- No white space and no punctuation starts a value. -/
theorem isValueStart_not {c : Char} (start : isValueStart c = true) :
    isJsonSpace c = false ∧ c ≠ ']' ∧ c ≠ '}' := by
  refine ⟨?_, ?_, ?_⟩
  · by_contra space
    simp only [isJsonSpace, Bool.not_eq_false, Bool.or_eq_true, decide_eq_true_eq] at space
    rcases space with ((rfl | rfl) | rfl) | rfl <;> exact absurd start (by decide)
  · rintro rfl
    exact absurd start (by decide)
  · rintro rfl
    exact absurd start (by decide)

end Grammar

end ProtoJS.Npm
