import ProtoJS.Modules.ESModuleVisits
import ProtoJS.Npm.JsonStrings
import ProtoJS.Strings.RegexSearch

/-! # Import and export declarations

A source is a sequence of declarations that name a module, with any text before, between and
behind them. The loader looks for the declarations with one regular expression. It finds those
that import names from a module, if they are spaced and named as the expression wants; an import
without names, one of a default and a namespace, and an export from a module it never finds.
-/

namespace ProtoJS.Modules

open Strings

section Literals

def isLineTerminator (c : Char) : Bool :=
  c = '\n' || c = '\r' || c.toNat = 0x2028 || c.toNat = 0x2029

/-- White space and line terminators. -/
def isWhite (c : Char) : Bool :=
  isSpace c || (0x2000 ≤ c.toNat && c.toNat ≤ 0x200A) ||
    [0xA0, 0x1680, 0x2028, 0x2029, 0x202F, 0x205F, 0x3000, 0xFEFF].contains c.toNat

/-- What an escape of one character stands for. -/
def escapedChar (c : Char) : Char :=
  match c with
  | 'b' => '\x08'
  | 'f' => '\x0c'
  | 'n' => '\n'
  | 'r' => '\r'
  | 't' => '\t'
  | 'v' => '\x0b'
  | c => c

/-- The escapes of a string, behind the backslash, and what they stand for. -/
inductive Escape : Text → Text → Prop
  | single {c : Char} (noDigit : c.isDigit = false) (noHex : c ≠ 'x') (noUnit : c ≠ 'u')
    (inLine : isLineTerminator c = false) : Escape [c] [escapedChar c]
  | zero : Escape ['0'] ['\x00']
  | hex {digits : Text} {c : Char} (two : digits.length = 2)
    (hexadecimal : ∀ d ∈ digits, Npm.isHexDigit d = true) (value : Npm.hexValue digits = c.toNat) :
    Escape ('x' :: digits) [c]
  | unit {digits : Text} {c : Char} (four : digits.length = 4)
    (hexadecimal : ∀ d ∈ digits, Npm.isHexDigit d = true) (value : Npm.hexValue digits = c.toNat) :
    Escape ('u' :: digits) [c]
  | pair {high low : Text} {c : Char} (four : high.length = 4) (four' : low.length = 4)
    (hexadecimal : ∀ d ∈ high ++ low, Npm.isHexDigit d = true)
    (value : 0x10000 + (Npm.hexValue high - 0xD800) * 0x400 + (Npm.hexValue low - 0xDC00) =
      c.toNat) : Escape ('u' :: (high ++ '\\' :: 'u' :: low)) [c]
  | codePoint {digits : Text} {c : Char} (present : digits ≠ [])
    (hexadecimal : ∀ d ∈ digits, Npm.isHexDigit d = true) (value : Npm.hexValue digits = c.toNat) :
    Escape ('u' :: '{' :: (digits ++ ['}'])) [c]
  | continued {c : Char} (line : isLineTerminator c = true) : Escape [c] []
  | continuedCRLF : Escape ['\r', '\n'] []

/-- What may stand between quotes of a kind, and what it stands for. -/
inductive Decodes (quote : Char) : Text → Text → Prop
  | nil : Decodes quote [] []
  | plain {c : Char} {body value : Text} (noQuote : c ≠ quote) (noBackslash : c ≠ '\\')
    (inLine : c ≠ '\n' ∧ c ≠ '\r') (rest : Decodes quote body value) :
    Decodes quote (c :: body) (c :: value)
  | escape {written meant body value : Text} (known : Escape written meant)
    (rest : Decodes quote body value) : Decodes quote ('\\' :: (written ++ body)) (meant ++ value)

/-- The string that names a module, as it is written and as it is meant. -/
structure ModuleSpecifier where
  quote : Char
  body : Text
  value : Text
  quotes : ESModuleLoader.isQuote quote = true
  decodes : Decodes quote body value

section Decoding

variable {quote : Char} {written meant body value : Text}

/-- An escape, with its backslash, is longer than what it stands for. -/
theorem Escape.length_le (known : Escape written meant) : meant.length ≤ written.length := by
  cases known <;> simp

theorem Decodes.eq_of_no_backslash (decodes : Decodes quote body value) (plain : '\\' ∉ body) :
    value = body := by
  induction decodes with
  | nil => rfl
  | plain _ _ _ _ ih => rw [ih (fun member => plain (List.mem_cons_of_mem _ member))]
  | escape _ _ _ => exact absurd List.mem_cons_self plain

theorem Decodes.length_le (decodes : Decodes quote body value) : value.length ≤ body.length := by
  induction decodes with
  | nil => exact le_rfl
  | plain _ _ _ _ ih => exact Nat.succ_le_succ ih
  | escape known _ ih =>
    have shorter := known.length_le
    simp only [List.length_append, List.length_cons]
    omega

theorem Decodes.length_lt (decodes : Decodes quote body value) (escaped : '\\' ∈ body) :
    value.length < body.length := by
  induction decodes with
  | nil => cases escaped
  | plain _ noBackslash _ _ ih =>
    rcases List.mem_cons.1 escaped with same | later
    · exact absurd same.symm noBackslash
    · exact Nat.succ_lt_succ (ih later)
  | escape known rest _ =>
    have shorter := known.length_le
    have others := rest.length_le
    simp only [List.length_append, List.length_cons]
    omega

theorem eq_of_isQuote {c : Char} (quotes : ESModuleLoader.isQuote c = true) :
    c = '\'' ∨ c = '"' := by
  simp only [ESModuleLoader.isQuote, Bool.or_eq_true, decide_eq_true_eq] at quotes
  exact quotes.imp Char.toNat_inj.1 Char.toNat_inj.1

theorem not_isHexDigit_of_isQuote {c : Char} (quotes : ESModuleLoader.isQuote c = true) :
    Npm.isHexDigit c = false := by
  rcases eq_of_isQuote quotes with rfl | rfl
  · decide
  · decide

/-- No escape but that of a quote has one in it. -/
theorem Escape.quotes {c : Char} (known : Escape written meant) (member : c ∈ written)
    (quotes : ESModuleLoader.isQuote c = true) : c ∈ meant := by
  have noHex := not_isHexDigit_of_isQuote quotes
  have other {d : Char} (plain : ESModuleLoader.isQuote d = false) : c ≠ d := by
    rintro rfl
    exact absurd (quotes.symm.trans plain) (by decide)
  have outside {digits : Text} (hexadecimal : ∀ d ∈ digits, Npm.isHexDigit d = true) :
      c ∉ digits := fun inside => by
    rw [hexadecimal c inside] at noHex
    cases noHex
  cases known with
  | single noDigit noX noU inLine =>
    obtain rfl := List.mem_singleton.1 member
    rcases eq_of_isQuote quotes with rfl | rfl
    · exact List.mem_singleton_self _
    · exact List.mem_singleton_self _
  | zero => exact absurd (List.mem_singleton.1 member) (other (by decide))
  | hex two hexadecimal value =>
    rcases List.mem_cons.1 member with same | inside
    · exact absurd same (other (by decide))
    · exact absurd inside (outside hexadecimal)
  | unit four hexadecimal value =>
    rcases List.mem_cons.1 member with same | inside
    · exact absurd same (other (by decide))
    · exact absurd inside (outside hexadecimal)
  | pair four four' hexadecimal value =>
    have none := outside hexadecimal
    simp only [List.mem_cons, List.mem_append, not_or] at member none
    rcases member with same | high | same | same | low
    · exact absurd same (other (by decide))
    · exact absurd high none.1
    · exact absurd same (other (by decide))
    · exact absurd same (other (by decide))
    · exact absurd low none.2
  | codePoint present hexadecimal value =>
    simp only [List.mem_cons, List.mem_append, List.not_mem_nil, or_false] at member
    rcases member with same | same | inside | same
    · exact absurd same (other (by decide))
    · exact absurd same (other (by decide))
    · exact absurd inside (outside hexadecimal)
    · exact absurd same (other (by decide))
  | continued line =>
    obtain rfl := List.mem_singleton.1 member
    rcases eq_of_isQuote quotes with rfl | rfl
    · exact absurd line (by decide)
    · exact absurd line (by decide)
  | continuedCRLF =>
    simp only [List.mem_cons, List.not_mem_nil, or_false] at member
    rcases member with same | same
    · exact absurd same (other (by decide))
    · exact absurd same (other (by decide))

/-- A quote that is written is meant. -/
theorem Decodes.mem_of_isQuote (decodes : Decodes quote body value) {c : Char} (member : c ∈ body)
    (quotes : ESModuleLoader.isQuote c = true) : c ∈ value := by
  induction decodes with
  | nil => exact member
  | plain _ _ _ _ ih =>
    rcases List.mem_cons.1 member with rfl | later
    · exact List.mem_cons_self
    · exact List.mem_cons_of_mem _ (ih later)
  | escape known _ ih =>
    rcases List.mem_cons.1 member with rfl | later
    · exact absurd quotes (by decide)
    · rcases List.mem_append.1 later with inside | behind
      · exact List.mem_append_left _ (known.quotes inside quotes)
      · exact List.mem_append_right _ (ih behind)

end Decoding

def ModuleSpecifier.text (specifier : ModuleSpecifier) : Text :=
  specifier.quote :: (specifier.body ++ [specifier.quote])

end Literals

section Declarations

def importWord : Text := ['i', 'm', 'p', 'o', 'r', 't']

def exportWord : Text := ['e', 'x', 'p', 'o', 'r', 't']

def fromWord : Text := ['f', 'r', 'o', 'm']

def asWord : Text := ['a', 's']

/-- What is imported: a default, all as a namespace, the names between braces, or a default and one
of these. -/
inductive ImportClause where
  | default (name : Text)
  | all (beforeAs afterAs name : Text)
  | named (names : Text)
  | defaultNamed (name beforeComma afterComma names : Text)
  | defaultAll (name beforeComma afterComma beforeAs afterAs star : Text)

def ImportClause.text : ImportClause → Text
  | default name => name
  | all beforeAs afterAs name => '*' :: (beforeAs ++ asWord ++ afterAs ++ name)
  | named names => '{' :: (names ++ ['}'])
  | defaultNamed name beforeComma afterComma names =>
    name ++ beforeComma ++ ',' :: (afterComma ++ '{' :: (names ++ ['}']))
  | defaultAll name beforeComma afterComma beforeAs afterAs star =>
    name ++ beforeComma ++ ',' :: (afterComma ++ '*' :: (beforeAs ++ asWord ++ afterAs ++ star))

/-- The declarations that name a module, with the white space between their tokens. -/
inductive Declaration where
  | bareImport (blank : Text) (specifier : ModuleSpecifier)
  | importFrom (blank : Text) (clause : ImportClause) (beforeFrom afterFrom : Text)
    (specifier : ModuleSpecifier)
  | exportAll (blank beforeFrom afterFrom : Text) (specifier : ModuleSpecifier)
  | exportNamed (blank names beforeFrom afterFrom : Text) (specifier : ModuleSpecifier)

namespace Declaration

def specifier : Declaration → ModuleSpecifier
  | bareImport _ specifier => specifier
  | importFrom _ _ _ _ specifier => specifier
  | exportAll _ _ _ specifier => specifier
  | exportNamed _ _ _ _ specifier => specifier

def text : Declaration → Text
  | bareImport blank specifier => importWord ++ blank ++ specifier.text
  | importFrom blank clause beforeFrom afterFrom specifier =>
    importWord ++ blank ++ clause.text ++ beforeFrom ++ fromWord ++ afterFrom ++
      specifier.text
  | exportAll blank beforeFrom afterFrom specifier =>
    exportWord ++ blank ++ '*' :: (beforeFrom ++ fromWord ++ afterFrom ++ specifier.text)
  | exportNamed blank names beforeFrom afterFrom specifier =>
    exportWord ++ blank ++ '{' :: (names ++ '}' :: (beforeFrom ++ fromWord ++ afterFrom ++
      specifier.text))

end Declaration

/-- A text with declarations: each behind what comes before it, and then the rest. -/
def sourceText (parts : List (Text × Declaration)) (rest : Text) : Text :=
  parts.flatMap (fun part => part.1 ++ part.2.text) ++ rest

end Declarations

section Conditions

/-- White space as the expression knows it, and not none. -/
def Spaced (blank : Text) : Prop := blank ≠ [] ∧ ∀ c ∈ blank, isSpace c = true

def isWordChar (c : Char) : Bool := c.isAlphanum || c == '_'

def Word (name : Text) : Prop := name ≠ [] ∧ ∀ c ∈ name, isWordChar c = true

def Enclosed (names : Text) : Prop := names ≠ [] ∧ '}' ∉ names

/-- The clauses that the expression knows. -/
def ImportClause.Recordable : ImportClause → Prop
  | default name => Word name
  | all beforeAs afterAs name => Spaced beforeAs ∧ Spaced afterAs ∧ Word name
  | named names => Enclosed names
  | defaultNamed name beforeComma afterComma names =>
    Word name ∧ (∀ c ∈ beforeComma ++ afterComma, isSpace c = true) ∧ Enclosed names
  | defaultAll _ _ _ _ _ _ => False

/-- The specifier is not empty and holds no quotes of either kind and no escapes. -/
def ModuleSpecifier.Recordable (specifier : ModuleSpecifier) : Prop :=
  specifier.body ≠ [] ∧ (∀ c ∈ specifier.body, ESModuleLoader.isQuote c = false) ∧
    '\\' ∉ specifier.body

/-- White space of a source, or none. -/
def Blank (blank : Text) : Prop := ∀ c ∈ blank, isWhite c = true

/-- What holds of every identifier: white space and commas end it, and it does not begin as another
kind of clause does. -/
def IsName (name : Text) : Prop :=
  name ≠ [] ∧ (∀ c ∈ name, isWhite c = false ∧ c ≠ ',') ∧
    ∀ c, name.head? = some c → c ≠ '*' ∧ c ≠ '{'

namespace ImportClause

/-- The tokens are those of a clause, and there are no braces between the braces. -/
def Legal : ImportClause → Prop
  | default name => IsName name
  | all beforeAs afterAs name => Blank beforeAs ∧ Blank afterAs ∧ IsName name
  | named names => '}' ∉ names
  | defaultNamed name beforeComma afterComma names =>
    IsName name ∧ Blank beforeComma ∧ Blank afterComma ∧ '}' ∉ names
  | defaultAll name beforeComma afterComma beforeAs afterAs star =>
    IsName name ∧ Blank beforeComma ∧ Blank afterComma ∧ Blank beforeAs ∧ Blank afterAs ∧
      IsName star

def EndsInName : ImportClause → Prop
  | default _ => True
  | all _ _ _ => True
  | named _ => False
  | defaultNamed _ _ _ _ => False
  | defaultAll _ _ _ _ _ _ => True

end ImportClause

/-- There is white space where it may be, and behind a name where it must be. -/
def Declaration.Legal : Declaration → Prop
  | bareImport blank _ => Blank blank
  | importFrom blank clause beforeFrom afterFrom _ =>
    Blank blank ∧ clause.Legal ∧ Blank beforeFrom ∧ (clause.EndsInName → beforeFrom ≠ []) ∧
      Blank afterFrom
  | exportAll blank beforeFrom afterFrom _ => Blank blank ∧ Blank beforeFrom ∧ Blank afterFrom
  | exportNamed blank _ beforeFrom afterFrom _ =>
    Blank blank ∧ Blank beforeFrom ∧ Blank afterFrom

/-- The declarations that the expression finds, with what they name. -/
def Declaration.Recordable : Declaration → Prop
  | importFrom blank clause beforeFrom afterFrom specifier =>
    Spaced blank ∧ clause.Recordable ∧ Spaced beforeFrom ∧ Spaced afterFrom ∧ specifier.Recordable
  | _ => False

end Conditions

section Reading

variable {name blank X Y : Text}

theorem isWhite_of_isSpace {c : Char} (space : isSpace c = true) : isWhite c = true := by
  rw [isWhite, space, Bool.true_or, Bool.true_or]

theorem Spaced.isBlank (spaced : Spaced blank) : Blank blank :=
  fun c member => isWhite_of_isSpace (spaced.2 c member)

theorem isWhite_eq_false_of_isWordChar {c : Char} (word : isWordChar c = true) :
    isWhite c = false := by
  have inside : 48 ≤ c.toNat ∧ c.toNat ≤ 122 := by
    simp only [isWordChar, Char.isAlphanum, Char.isAlpha, Char.isUpper, Char.isLower, Char.isDigit,
      Bool.or_eq_true, Bool.and_eq_true, decide_eq_true_eq, ge_iff_le, UInt32.le_iff_toNat_le,
      beq_iff_eq] at word
    rcases word with ((upper | lower) | digit) | rfl
    · exact ⟨le_trans (by decide) upper.1, le_trans upper.2 (by decide)⟩
    · exact ⟨le_trans (by decide) lower.1, le_trans lower.2 (by decide)⟩
    · exact ⟨le_trans (by decide) digit.1, le_trans digit.2 (by decide)⟩
    · decide
  have noBlank : c ≠ ' ' := by
    rintro rfl
    exact absurd inside.1 (by decide)
  simp only [isWhite, isSpace, noBlank, Bool.or_eq_false_iff, Bool.and_eq_false_iff,
    decide_eq_false_iff_not, List.contains_eq_mem, List.mem_cons, List.not_mem_nil,
    not_false_eq_true, true_and, or_false]
  omega

theorem Word.isName (word : Word name) : IsName name := by
  refine ⟨word.1, fun c member => ⟨isWhite_eq_false_of_isWordChar (word.2 c member), ?_⟩, ?_⟩
  · rintro rfl
    exact absurd (word.2 _ member) (by decide)
  · intro c first
    have member := word.2 c (List.mem_of_mem_head? first)
    constructor
    · rintro rfl
      exact absurd member (by decide)
    · rintro rfl
      exact absurd member (by decide)

theorem ImportClause.Recordable.legal {clause : ImportClause} (recordable : clause.Recordable) :
    clause.Legal := by
  cases clause with
  | default name => exact Word.isName recordable
  | all b a n =>
    obtain ⟨spaced, spaced', word⟩ := recordable
    exact ⟨spaced.isBlank, spaced'.isBlank, word.isName⟩
  | named names => exact recordable.2
  | defaultNamed n b a names =>
    obtain ⟨word, spaces, enclosed⟩ := recordable
    obtain ⟨spaces, spaces'⟩ := List.forall_mem_append.1 spaces
    exact ⟨word.isName, fun c member => isWhite_of_isSpace (spaces c member),
      fun c member => isWhite_of_isSpace (spaces' c member), enclosed.2⟩
  | defaultAll => exact recordable.elim

/-- White space in front of something else. -/
theorem blank_inj {blank' : Text} {c d : Char} (white : Blank blank) (white' : Blank blank')
    (black : isWhite c = false) (black' : isWhite d = false)
    (same : blank ++ c :: X = blank' ++ d :: Y) : blank = blank' ∧ c = d ∧ X = Y := by
  obtain ⟨rfl, rest⟩ := append_inj_of_stops white (by simp [black]) white' (by simp [black']) same
  exact ⟨rfl, List.cons.inj rest⟩

/-- A name in front of white space or a comma. -/
theorem IsName.inj {name' : Text} (isName : IsName name) (isName' : IsName name')
    (ends : ∀ c, X.head? = some c → isWhite c = true ∨ c = ',')
    (ends' : ∀ c, Y.head? = some c → isWhite c = true ∨ c = ',')
    (same : name ++ X = name' ++ Y) : name = name' ∧ X = Y := by
  have inside {n : Text} (named : IsName n) :
      ∀ c ∈ n, (fun c => !isWhite c && c != ',') c = true := by
    intro c member
    simp [named.2.1 c member]
  have outside {Z : Text} (ended : ∀ c, Z.head? = some c → isWhite c = true ∨ c = ',') :
      ∀ c, Z.head? = some c → (fun c => !isWhite c && c != ',') c = false := by
    intro c first
    rcases ended c first with white | rfl
    · simp [white]
    · simp
  exact append_inj_of_stops (inside isName) (outside ends) (inside isName') (outside ends') same

/-- White space in front of a name. -/
theorem IsName.blank_inj {name' blank' : Text} (isName : IsName name) (isName' : IsName name')
    (white : Blank blank) (white' : Blank blank')
    (same : blank ++ (name ++ X) = blank' ++ (name' ++ Y)) :
    blank = blank' ∧ name ++ X = name' ++ Y := by
  have black {n Z : Text} (named : IsName n) :
      ∀ c, (n ++ Z).head? = some c → isWhite c = false := by
    obtain ⟨d, rest, rfl⟩ := List.exists_cons_of_ne_nil named.1
    intro c first
    cases first
    exact (named.2.1 d (by simp)).1
  exact append_inj_of_stops white (black isName) white' (black isName') same

theorem IsName.append_ne_cons {c : Char} (isName : IsName name) (mark : c = '*' ∨ c = '{') :
    name ++ X ≠ c :: Y := by
  obtain ⟨d, rest, rfl⟩ := List.exists_cons_of_ne_nil isName.1
  intro same
  obtain ⟨rfl, -⟩ := List.cons.inj same
  obtain ⟨noStar, noBrace⟩ := isName.2.2 d rfl
  exact mark.elim noStar noBrace

theorem Blank.ends {c : Char} (white : Blank blank) (mark : isWhite c = true ∨ c = ',') :
    ∀ d, (blank ++ c :: X).head? = some d → isWhite d = true ∨ d = ',' := by
  intro d first
  cases blank with
  | nil =>
    cases first
    exact mark
  | cons e blank =>
    cases first
    exact .inl (white d (by simp))

/-- The text behind a clause: white space and the rest of the declaration. Behind a name there is
white space. -/
structure Follows (clause : ImportClause) (X : Text) : Prop where
  from_ : ∃ blank rest, Blank blank ∧ X = blank ++ 'f' :: rest
  spaced : clause.EndsInName → ∃ c rest, isWhite c = true ∧ X = c :: rest

theorem Follows.ends {clause : ImportClause} (follows : Follows clause X)
    (name : clause.EndsInName) : ∀ c, X.head? = some c → isWhite c = true ∨ c = ',' := by
  obtain ⟨d, rest, white, rfl⟩ := follows.spaced name
  intro c first
  cases first
  exact .inl white

/-- No comma follows a clause. -/
theorem Follows.ne_comma {clause : ImportClause} (follows : Follows clause X)
    (white : Blank blank) : X ≠ blank ++ ',' :: Y := by
  obtain ⟨blank', rest, white', rfl⟩ := follows.from_
  intro same
  obtain ⟨-, marks, -⟩ := blank_inj white' white (by decide) (by decide) same
  exact absurd marks (by decide)

theorem brace_inj {names names' : Text} (closed : '}' ∉ names) (closed' : '}' ∉ names')
    (same : names ++ '}' :: X = names' ++ '}' :: Y) : names = names' ∧ X = Y := by
  have inside {n : Text} (plain : '}' ∉ n) : ∀ c ∈ n, (fun c => c != '}') c = true := by
    intro c member
    rw [bne_iff_ne]
    rintro rfl
    exact plain member
  obtain ⟨rfl, rest⟩ := append_inj_of_stops (inside closed) (by simp) (inside closed') (by simp)
    same
  exact ⟨rfl, (List.cons.inj rest).2⟩

/-- A text is read as a clause in one way. -/
theorem clause_inj {clause clause' : ImportClause} (legal : clause.Legal)
    (legal' : clause'.Recordable) (follows : Follows clause X) (follows' : Follows clause' Y)
    (same : clause.text ++ X = clause'.text ++ Y) : clause = clause' ∧ X = Y := by
  cases clause' with
  | default name' =>
    have isName' : IsName name' := Word.isName legal'
    have ends' := follows'.ends trivial
    cases clause with
    | default name =>
      obtain ⟨rfl, rest⟩ := IsName.inj legal isName' (follows.ends trivial) ends' same
      exact ⟨rfl, rest⟩
    | all b a n =>
      exact absurd same.symm (isName'.append_ne_cons (.inl rfl))
    | named names => exact absurd same.symm (isName'.append_ne_cons (.inr rfl))
    | defaultNamed n b a names =>
      obtain ⟨isName, white, -⟩ := legal
      simp only [ImportClause.text, List.append_assoc] at same
      obtain ⟨-, rest⟩ := isName.inj isName' (white.ends (.inr rfl)) ends' same
      exact absurd rest.symm (follows'.ne_comma white)
    | defaultAll n b a b' a' star =>
      obtain ⟨isName, white, -⟩ := legal
      simp only [ImportClause.text, List.append_assoc] at same
      obtain ⟨-, rest⟩ := isName.inj isName' (white.ends (.inr rfl)) ends' same
      exact absurd rest.symm (follows'.ne_comma white)
  | all b' a' n' =>
    obtain ⟨spaced, spaced', word⟩ := legal'
    cases clause with
    | default name => exact absurd same (IsName.append_ne_cons legal (.inl rfl))
    | all b a n =>
      obtain ⟨white, white', isName⟩ := legal
      simp only [ImportClause.text, List.cons_append, List.append_assoc, asWord, List.cons.injEq,
        true_and, List.nil_append] at same
      obtain ⟨rfl, -, behindA⟩ := blank_inj white spaced.isBlank (by decide) (by decide) same
      obtain ⟨rfl, behindAs⟩ := isName.blank_inj word.isName white' spaced'.isBlank
        (List.cons.inj behindA).2
      obtain ⟨rfl, rest⟩ := isName.inj word.isName (follows.ends trivial) (follows'.ends trivial)
        behindAs
      exact ⟨rfl, rest⟩
    | named names => exact absurd (List.cons.inj same).1 (by decide)
    | defaultNamed n b a names =>
      simp only [ImportClause.text, List.append_assoc] at same
      exact absurd same (legal.1.append_ne_cons (.inl rfl))
    | defaultAll n b a b' a' star =>
      simp only [ImportClause.text, List.append_assoc] at same
      exact absurd same (legal.1.append_ne_cons (.inl rfl))
  | named names' =>
    cases clause with
    | default name => exact absurd same (IsName.append_ne_cons legal (.inr rfl))
    | all b a n => exact absurd (List.cons.inj same).1 (by decide)
    | named names =>
      simp only [ImportClause.text, List.cons_append, List.append_assoc, List.cons.injEq, true_and,
        List.nil_append] at same
      obtain ⟨rfl, rest⟩ := brace_inj legal legal'.2 same
      exact ⟨rfl, rest⟩
    | defaultNamed n b a names =>
      simp only [ImportClause.text, List.append_assoc] at same
      exact absurd same (legal.1.append_ne_cons (.inr rfl))
    | defaultAll n b a b' a' star =>
      simp only [ImportClause.text, List.append_assoc] at same
      exact absurd same (legal.1.append_ne_cons (.inr rfl))
  | defaultNamed n' b' a' names' =>
    obtain ⟨isName', white', white'', closed'⟩ := ImportClause.Recordable.legal legal'
    simp only [ImportClause.text, List.append_assoc, List.cons_append, List.nil_append] at same
    cases clause with
    | default name =>
      obtain ⟨-, rest⟩ := IsName.inj legal isName' (follows.ends trivial) (white'.ends (.inr rfl))
        same
      exact absurd rest (follows.ne_comma white')
    | all b a n => exact absurd same.symm (isName'.append_ne_cons (.inl rfl))
    | named names => exact absurd same.symm (isName'.append_ne_cons (.inr rfl))
    | defaultNamed n b a names =>
      obtain ⟨isName, white, white₂, closed⟩ := legal
      simp only [List.append_assoc, List.cons_append, List.nil_append] at same
      obtain ⟨rfl, behindName⟩ := isName.inj isName' (white.ends (.inr rfl)) (white'.ends (.inr rfl))
        same
      obtain ⟨rfl, -, behindComma⟩ := blank_inj white white' (by decide) (by decide) behindName
      obtain ⟨rfl, -, names⟩ := blank_inj white₂ white'' (by decide) (by decide) behindComma
      obtain ⟨rfl, rest⟩ := brace_inj closed closed' names
      exact ⟨rfl, rest⟩
    | defaultAll n b a c d star =>
      obtain ⟨isName, white, white₂, -⟩ := legal
      simp only [List.append_assoc, List.cons_append] at same
      obtain ⟨-, behindName⟩ := isName.inj isName' (white.ends (.inr rfl)) (white'.ends (.inr rfl))
        same
      obtain ⟨-, -, behindComma⟩ := blank_inj white white' (by decide) (by decide) behindName
      obtain ⟨-, marks, -⟩ := blank_inj white₂ white'' (by decide) (by decide) behindComma
      exact absurd marks (by decide)
  | defaultAll => exact legal'.elim

end Reading

namespace ESModuleLoader

section Expression

open Regex

/-- The part of the expression that is for the clause. -/
def clauseRegex : Regex :=
  alt (inOrder [literal "*".toList, plus space, literal asWord, plus space,
      group 1 (plus word)])
    (alt (inOrder [char (· == '{'), group 2 braced, char (· == '}')])
      (alt (group 3 (plus word))
        (inOrder [group 4 (plus word), star space, literal ",".toList, star space,
          char (· == '{'), group 5 braced, char (· == '}')])))

theorem importRegex_eq : importRegex = inOrder [literal importWord, plus space, clauseRegex,
    plus space, literal fromWord, plus space, quote, group 6 quoted, quote] := by
  rfl

variable {s : Text} {captures : Captures}

theorem accepts_inOrder_nil : Accepts (inOrder []) s ↔ s = [] := accepts_empty

theorem accepts_inOrder_cons {r : Regex} {rs : List Regex} : Accepts (inOrder (r :: rs)) s ↔
    ∃ s₁ s₂, s = s₁ ++ s₂ ∧ Accepts r s₁ ∧ Accepts (inOrder rs) s₂ := accepts_seq

theorem accepts_word : Accepts (plus word) s ↔ Word s := accepts_plus_char

theorem accepts_spaced : Accepts (plus space) s ↔ Spaced s := accepts_plus_char

theorem accepts_spaces : Accepts (star space) s ↔ ∀ c ∈ s, isSpace c = true := accepts_star_char

theorem accepts_braced : Accepts braced s ↔ Enclosed s := by
  rw [braced, accepts_plus_char, Enclosed]
  refine and_congr_right fun _ => ?_
  constructor
  · intro open_ member
    simpa using open_ _ member
  · intro closed c member
    rw [bne_iff_ne]
    rintro rfl
    exact closed member

/-- The expression for the clause accepts the recordable clauses. -/
theorem accepts_clauseRegex : Accepts clauseRegex s ↔
    ∃ clause : ImportClause, clause.Recordable ∧ s = clause.text := by
  simp only [clauseRegex, accepts_alt, accepts_inOrder_cons, accepts_inOrder_nil, accepts_group,
    accepts_word, accepts_spaced, accepts_spaces, accepts_braced, accepts_literal, accepts_char,
    beq_iff_eq, exists_eq_left]
  constructor
  · rintro (⟨_, _, rfl, rfl, b, _, rfl, spaced, _, _, rfl, rfl, a, _, rfl, spaced', n, _, rfl,
      named, rfl⟩ | ⟨_, _, rfl, rfl, names, _, rfl, enclosed, _, _, rfl, rfl, rfl⟩ | named |
      ⟨n, _, rfl, named, b, _, rfl, spaces, _, _, rfl, rfl, a, _, rfl, spaces', _, _, rfl, rfl,
        names, _, rfl, enclosed, _, _, rfl, rfl, rfl⟩)
    · exact ⟨.all b a n, ⟨spaced, spaced', named⟩, by simp [ImportClause.text]⟩
    · exact ⟨.named names, enclosed, by simp [ImportClause.text]⟩
    · exact ⟨.default s, named, rfl⟩
    · exact ⟨.defaultNamed n b a names, ⟨named, List.forall_mem_append.2 ⟨spaces, spaces'⟩, enclosed⟩,
        by simp [ImportClause.text]⟩
  · rintro ⟨clause, recordable, rfl⟩
    cases clause with
    | default name => exact .inr (.inr (.inl recordable))
    | all b a n =>
      obtain ⟨spaced, spaced', named⟩ := recordable
      exact .inl ⟨"*".toList, b ++ (asWord ++ (a ++ (n ++ []))), by simp [ImportClause.text],
        rfl, b, _, rfl, spaced, _, _, rfl, rfl, a, _, rfl, spaced', n, [], rfl, named, rfl⟩
    | named names =>
      exact .inr (.inl ⟨['{'], names ++ (['}'] ++ []), rfl, rfl, names, _, rfl, recordable, _, _,
        rfl, rfl, rfl⟩)
    | defaultNamed n b a names =>
      obtain ⟨named, spaces, enclosed⟩ := recordable
      obtain ⟨spaces, spaces'⟩ := List.forall_mem_append.1 spaces
      exact .inr (.inr (.inr ⟨n, b ++ (",".toList ++ (a ++ (['{'] ++ (names ++ (['}'] ++ []))))),
        by simp [ImportClause.text], named, b, _, rfl, spaces, _, _, rfl, rfl, a, _, rfl, spaces',
        _, _, rfl, rfl, names, _, rfl, enclosed, _, _, rfl, rfl, rfl⟩))
    | defaultAll => exact recordable.elim

/-- What the expression matches. -/
structure FoundImport where
  blank : Text
  clause : ImportClause
  beforeFrom : Text
  afterFrom : Text
  opening : Char
  specifier : Text
  closing : Char
  blank_spaced : Spaced blank
  clause_recordable : clause.Recordable
  beforeFrom_spaced : Spaced beforeFrom
  afterFrom_spaced : Spaced afterFrom
  opening_quotes : isQuote opening = true
  specifier_isSpecifier : IsSpecifier specifier
  closing_quotes : isQuote closing = true

def FoundImport.text (found : FoundImport) : Text :=
  importWord ++ found.blank ++ found.clause.text ++ found.beforeFrom ++ fromWord ++
    found.afterFrom ++ found.opening :: (found.specifier ++ [found.closing])

theorem productive_importRegex : importRegex.productive = true := by decide

/-- Every match is a found import, and its sixth group is the specifier. -/
theorem exists_found_of_matches (taken : Matches importRegex s captures) :
    ∃ found : FoundImport, s = found.text ∧ submatch 6 captures = found.specifier := by
  simp only [importRegex_eq, inOrder, List.foldr_cons, List.foldr_nil] at taken
  obtain ⟨_, _, _, _, rfl, rfl, isImport, taken⟩ := matches_seq_iff.1 taken
  obtain ⟨blank, _, _, _, rfl, rfl, isBlank, taken⟩ := matches_seq_iff.1 taken
  obtain ⟨_, _, clauseCaptures, _, rfl, rfl, isClause, taken⟩ := matches_seq_iff.1 taken
  obtain ⟨beforeFrom, _, _, _, rfl, rfl, isBefore, taken⟩ := matches_seq_iff.1 taken
  obtain ⟨_, _, _, _, rfl, rfl, isFrom, taken⟩ := matches_seq_iff.1 taken
  obtain ⟨afterFrom, _, _, _, rfl, rfl, isAfter, taken⟩ := matches_seq_iff.1 taken
  obtain ⟨_, _, _, _, rfl, rfl, opens, taken⟩ := matches_seq_iff.1 taken
  obtain ⟨specifier, _, _, _, rfl, rfl, isGroup, taken⟩ := matches_seq_iff.1 taken
  obtain ⟨_, _, _, _, rfl, rfl, closes, taken⟩ := matches_seq_iff.1 taken
  obtain ⟨rfl, rfl⟩ := matches_empty_iff.1 taken
  obtain ⟨rfl, -⟩ := matches_literal_iff.1 isImport
  obtain ⟨rfl, -⟩ := matches_literal_iff.1 isFrom
  obtain ⟨clause, recordable, rfl⟩ := accepts_clauseRegex.1 ⟨_, isClause⟩
  obtain ⟨⟨opening, quotes, rfl⟩, rfl⟩ := matches_char_iff.1 opens
  obtain ⟨⟨closing, quotes', rfl⟩, rfl⟩ := matches_char_iff.1 closes
  obtain ⟨_, rfl, inner⟩ := matches_group_iff.1 isGroup
  obtain ⟨filled, unquoted, rfl⟩ := matches_plus_char_iff.1 inner
  refine ⟨⟨blank, clause, beforeFrom, afterFrom, opening, specifier, closing,
    accepts_spaced.1 ⟨_, isBlank⟩, recordable, accepts_spaced.1 ⟨_, isBefore⟩,
    accepts_spaced.1 ⟨_, isAfter⟩, quotes, ⟨filled, fun c member => ?_⟩, quotes'⟩, ?_, rfl⟩
  · simpa using unquoted c member
  · simp only [FoundImport.text, List.append_assoc, List.cons_append, List.nil_append,
      List.append_nil]

theorem accepts_found (found : FoundImport) : Accepts importRegex found.text := by
  obtain ⟨blank, clause, beforeFrom, afterFrom, opening, specifier, closing, spaced, recordable,
    spaced', spaced'', quotes, ⟨filled, unquoted⟩, quotes'⟩ := found
  simp only [importRegex_eq, accepts_inOrder_cons, accepts_inOrder_nil, accepts_literal,
    accepts_spaced, accepts_clauseRegex, accepts_group, quoted, accepts_plus_char, quote,
    accepts_char]
  refine ⟨importWord, blank ++ (clause.text ++ (beforeFrom ++ (fromWord ++ (afterFrom ++
    ([opening] ++ (specifier ++ ([closing] ++ []))))))), ?_, rfl, ?_⟩
  · simp only [FoundImport.text, List.append_assoc, List.cons_append, List.nil_append,
      List.append_nil]
  refine ⟨blank, _, rfl, spaced, clause.text, _, rfl, ⟨clause, recordable, rfl⟩, ?_⟩
  refine ⟨beforeFrom, _, rfl, spaced', _, _, rfl, rfl, afterFrom, _, rfl, spaced'', ?_⟩
  refine ⟨[opening], _, rfl, ⟨opening, quotes, rfl⟩, specifier, _, rfl, ⟨filled, ?_⟩, ?_⟩
  · intro c member
    simpa using unquoted c member
  · exact ⟨[closing], [], rfl, ⟨closing, quotes', rfl⟩, rfl⟩

end Expression

section Found

open Regex

variable {X Y : Text}

/-- A recordable clause begins neither with white space nor with a quote. -/
theorem exists_cons_clause {clause : ImportClause} (recordable : clause.Recordable) :
    ∃ c rest, clause.text = c :: rest ∧ isWhite c = false ∧ isQuote c = false := by
  have ofWord {name : Text} (word : Word name) (more : Text) :
      ∃ c rest, name ++ more = c :: rest ∧ isWhite c = false ∧ isQuote c = false := by
    obtain ⟨c, rest, rfl⟩ := List.exists_cons_of_ne_nil word.1
    have isWord := word.2 c (by simp)
    refine ⟨c, rest ++ more, rfl, isWhite_eq_false_of_isWordChar isWord, ?_⟩
    rw [← Bool.not_eq_true]
    intro quotes
    rcases eq_of_isQuote quotes with rfl | rfl
    · exact absurd isWord (by decide)
    · exact absurd isWord (by decide)
  cases clause with
  | default name =>
    obtain ⟨c, rest, same, first⟩ := ofWord recordable []
    exact ⟨c, rest, by simpa [ImportClause.text] using same, first⟩
  | all b a n => exact ⟨'*', _, rfl, by decide, by decide⟩
  | named names => exact ⟨'{', _, rfl, by decide, by decide⟩
  | defaultNamed n b a names =>
    simp only [ImportClause.text, List.append_assoc]
    exact ofWord recordable.1 _
  | defaultAll => exact recordable.elim

theorem exists_cons_legal {clause : ImportClause} (legal : clause.Legal) :
    ∃ c rest, clause.text = c :: rest ∧ isWhite c = false := by
  have ofName {name : Text} (isName : IsName name) (more : Text) :
      ∃ c rest, name ++ more = c :: rest ∧ isWhite c = false := by
    obtain ⟨c, rest, rfl⟩ := List.exists_cons_of_ne_nil isName.1
    exact ⟨c, rest ++ more, rfl, (isName.2.1 c (by simp)).1⟩
  cases clause with
  | default name =>
    obtain ⟨c, rest, same, first⟩ := ofName legal []
    exact ⟨c, rest, by simpa [ImportClause.text] using same, first⟩
  | all b a n => exact ⟨'*', _, rfl, by decide⟩
  | named names => exact ⟨'{', _, rfl, by decide⟩
  | defaultNamed n b a names =>
    simp only [ImportClause.text, List.append_assoc]
    exact ofName legal.1 _
  | defaultAll n b a b' a' star =>
    simp only [ImportClause.text, List.append_assoc]
    exact ofName legal.1 _

theorem follows_of_blank {clause : ImportClause} {blank : Text} (white : Blank blank)
    (spaced : clause.EndsInName → blank ≠ []) (rest : Text) :
    Follows clause (blank ++ (fromWord ++ rest)) := by
  refine ⟨⟨blank, 'r' :: 'o' :: 'm' :: rest, white, rfl⟩, fun name => ?_⟩
  obtain ⟨c, others, rfl⟩ := List.exists_cons_of_ne_nil (spaced name)
  exact ⟨c, _, white c (by simp), rfl⟩

/-- A declaration that is matched imports names, spaced as the expression wants, and the match
goes up to the first quote in its specifier. -/
theorem eq_importFrom_of_found {d : Declaration} (legal : d.Legal) {found : FoundImport}
    (same : d.text ++ X = found.text ++ Y) :
    ∃ blank clause beforeFrom afterFrom specifier,
      d = .importFrom blank clause beforeFrom afterFrom specifier ∧
      Spaced blank ∧ clause.Recordable ∧ Spaced beforeFrom ∧ Spaced afterFrom ∧
      specifier.body ++ specifier.quote :: X = found.specifier ++ found.closing :: Y := by
  have black {c : Char} (quotes : isQuote c = true) : isWhite c = false := by
    rcases eq_of_isQuote quotes with rfl | rfl
    · decide
    · decide
  obtain ⟨first, others, head, firstBlack, firstPlain⟩ :=
    exists_cons_clause found.clause_recordable
  cases d with
  | bareImport blank specifier =>
    simp only [Declaration.text, FoundImport.text, ModuleSpecifier.text, List.append_assoc,
      List.append_cancel_left_eq, List.cons_append, head] at same
    obtain ⟨-, marks, -⟩ := blank_inj legal found.blank_spaced.isBlank (black specifier.quotes)
      firstBlack same
    rw [← marks, specifier.quotes] at firstPlain
    cases firstPlain
  | importFrom blank clause beforeFrom afterFrom specifier =>
    obtain ⟨white, legalClause, white', spaced, white''⟩ := legal
    obtain ⟨c, rest, begins, clauseBlack⟩ := exists_cons_legal legalClause
    simp only [Declaration.text, FoundImport.text, ModuleSpecifier.text, List.append_assoc,
      List.append_cancel_left_eq, begins, head, List.cons_append] at same
    obtain ⟨sameBlank, marks, others'⟩ := blank_inj white found.blank_spaced.isBlank clauseBlack
      firstBlack same
    have clauses : clause.text ++ (beforeFrom ++ (fromWord ++ (afterFrom ++ specifier.quote ::
        (specifier.body ++ specifier.quote :: X)))) = found.clause.text ++ (found.beforeFrom ++
          (fromWord ++ (found.afterFrom ++ found.opening :: (found.specifier ++
            found.closing :: Y)))) := by
      rw [begins, head, List.cons_append, List.cons_append, marks]
      simpa using others'
    have follows : Follows clause (beforeFrom ++ (fromWord ++ (afterFrom ++ specifier.quote ::
        (specifier.body ++ specifier.quote :: X)))) := follows_of_blank white' spaced _
    obtain ⟨rfl, froms⟩ := clause_inj legalClause found.clause_recordable follows
      (follows_of_blank found.beforeFrom_spaced.isBlank (fun _ => found.beforeFrom_spaced.1) _)
      clauses
    obtain ⟨sameBefore, -, afters⟩ := blank_inj white' found.beforeFrom_spaced.isBlank (by decide)
      (by decide) froms
    obtain ⟨sameAfter, -, specifiers⟩ := blank_inj white'' found.afterFrom_spaced.isBlank
      (black specifier.quotes) (black found.opening_quotes)
      (List.cons.inj (List.cons.inj (List.cons.inj afters).2).2).2
    refine ⟨_, _, _, _, _, rfl, ?_, found.clause_recordable, ?_, ?_, specifiers⟩
    · rw [sameBlank]
      exact found.blank_spaced
    · rw [sameBefore]
      exact found.beforeFrom_spaced
    · rw [sameAfter]
      exact found.afterFrom_spaced
  | exportAll => exact absurd (List.cons.inj same).1 (by decide)
  | exportNamed => exact absurd (List.cons.inj same).1 (by decide)

/-- What is taken up to the first quote is the specifier exactly if it is recordable. -/
theorem specifier_eq_value_iff {m : ModuleSpecifier} {taken : Text} {closing : Char}
    (isSpecifier : IsSpecifier taken) (closes : isQuote closing = true)
    (same : m.body ++ m.quote :: X = taken ++ closing :: Y) :
    (taken = m.value ↔ m.Recordable) ∧ (m.Recordable → X = Y) := by
  by_cases plain : ∀ c ∈ m.body, isQuote c = false
  · obtain ⟨whole, rest⟩ := append_inj_of_stops (p := fun c => !isQuote c)
      (fun c member => by simp [plain c member]) (by simp [m.quotes])
      (fun c member => by simp [isSpecifier.2 c member]) (by simp [closes]) same
    refine ⟨⟨fun meant => ⟨whole ▸ isSpecifier.1, plain, fun escaped => ?_⟩, fun recordable => ?_⟩,
      fun _ => (List.cons.inj rest).2⟩
    · have shorter := m.decodes.length_lt escaped
      rw [← meant, whole] at shorter
      exact absurd shorter (lt_irrefl _)
    · rw [m.decodes.eq_of_no_backslash recordable.2.2, whole]
  · have unrecordable : ¬m.Recordable := fun recordable => plain recordable.2.1
    refine ⟨iff_of_false (fun meant => ?_) unrecordable, fun recordable =>
      absurd recordable unrecordable⟩
    push Not at plain
    obtain ⟨c, member, quotes⟩ := plain
    have inValue := m.decodes.mem_of_isQuote member (by simpa using quotes)
    rw [← meant] at inValue
    exact quotes (isSpecifier.2 c inValue)

theorem legal_of_recordable {d : Declaration} (recordable : d.Recordable) : d.Legal := by
  cases d with
  | importFrom blank clause beforeFrom afterFrom specifier =>
    obtain ⟨spaced, recordableClause, spaced', spaced'', -⟩ := recordable
    exact ⟨spaced.isBlank, ImportClause.Recordable.legal recordableClause, spaced'.isBlank,
      fun _ => spaced'.1, spaced''.isBlank⟩
  | _ => exact recordable.elim

/-- A way to match at the start of a declaration takes its specifier if it is recordable, and then
the whole declaration. -/
theorem way_iff {d : Declaration} (legal : d.Legal) {rest : Text} {way : Text × Captures}
    (isWay : way ∈ ways importRegex (d.text ++ rest)) :
    (submatch 6 way.2 = d.specifier.value ↔ d.Recordable) ∧ (d.Recordable → way.1 = rest) := by
  obtain ⟨matched, split, taken⟩ := takes_of_mem_ways importRegex _ way isWay
  obtain ⟨found, rfl, specifier⟩ := exists_found_of_matches taken
  obtain ⟨blank, clause, beforeFrom, afterFrom, m, rfl, spaced, recordable, spaced', spaced'',
    same⟩ := eq_importFrom_of_found legal split
  obtain ⟨exact_, whole⟩ :=
    specifier_eq_value_iff found.specifier_isSpecifier found.closing_quotes same
  rw [specifier]
  constructor
  · refine exact_.trans ⟨fun m => ⟨spaced, recordable, spaced', spaced'', m⟩, ?_⟩
    rintro ⟨-, -, -, -, m⟩
    exact m
  · rintro ⟨-, -, -, -, m⟩
    exact (whole m).symm

/-- A recordable declaration is matched as a whole. -/
theorem head?_ways_of_recordable {d : Declaration} (recordable : d.Recordable) (rest : Text) :
    ∃ captures, (ways importRegex (d.text ++ rest)).head? = some (rest, captures) ∧
      submatch 6 captures = d.specifier.value := by
  have accepted : Accepts importRegex d.text := by
    cases d with
    | importFrom blank clause beforeFrom afterFrom m =>
      obtain ⟨spaced, recordableClause, spaced', spaced'', filled, plain, -⟩ := recordable
      have found := accepts_found ⟨blank, clause, beforeFrom, afterFrom, m.quote, m.body, m.quote,
        spaced, recordableClause, spaced', spaced'', m.quotes, ⟨filled, plain⟩, m.quotes⟩
      exact found
    | _ => exact recordable.elim
  obtain ⟨captures, taken⟩ := accepted
  have isWay := mem_ways_of_matches taken productive_importRegex rest
  obtain ⟨way, others, same⟩ := List.exists_cons_of_ne_nil (List.ne_nil_of_mem isWay)
  have first : way ∈ ways importRegex (d.text ++ rest) := by
    rw [same]
    exact List.mem_cons_self
  obtain ⟨value, whole⟩ := way_iff (legal_of_recordable recordable) first
  refine ⟨way.2, ?_, value.2 recordable⟩
  rw [same, List.head?_cons, ← whole recordable]

end Found

section Sources

open Regex

/-- A match that begins in the text, with what follows it, ends in it too. -/
def EndsWithin (text following : Text) : Prop :=
  ∀ after, after ≠ [] → after <:+ text → ∀ way,
    (ways importRegex (after ++ following)).head? = some way → following <:+ way.1

/-- Nothing in front of a declaration is taken for an import that runs into it. -/
def Undisturbed : List (Text × Declaration) → Text → Prop
  | [], _ => True
  | (before, d) :: parts, rest =>
    EndsWithin before (d.text ++ sourceText parts rest) ∧ Undisturbed parts rest

/-- The specifiers that the declarations of a source name. -/
def specifiers (parts : List (Text × Declaration)) : List Text :=
  parts.map fun part => part.2.specifier.value

/-- The specifiers of all declarations are among the dependencies, in the order of the source. -/
def RecordsAll (parts : List (Text × Declaration)) (rest : Text) : Prop :=
  ((specifiers parts).map String.ofList).Sublist
    (importsOf (String.ofList (sourceText parts rest)))

variable {parts : List (Text × Declaration)} {before rest : Text}

theorem sourceText_cons (before : Text) (d : Declaration) (parts : List (Text × Declaration))
    (rest : Text) :
    sourceText ((before, d) :: parts) rest = before ++ (d.text ++ sourceText parts rest) := by
  simp [sourceText]

/-- A way to match takes something. -/
theorem length_lt_of_way {input : Text} {way : Text × Captures}
    (isWay : (ways importRegex input).head? = some way) :
    way.1 <:+ input ∧ way.1.length < input.length := by
  obtain ⟨matched, split, taken⟩ :=
    takes_of_mem_ways importRegex _ way (List.mem_of_mem_head? isWay)
  have filled : matched ≠ [] := fun empty => by
    have null := nullable_of_matches_nil taken empty
    exact absurd null (by decide)
  have size := List.length_pos_iff.2 filled
  rw [split]
  refine ⟨List.suffix_append .., ?_⟩
  rw [List.length_append]
  omega

theorem EndsWithin.suffix {text shorter following : Text} (within : EndsWithin text following)
    (suffix : shorter <:+ text) : EndsWithin shorter following :=
  fun after filled inside => within after filled (inside.trans suffix)

/-- The search goes from declaration to declaration. What a match before the next one leaves of
the text in front of it takes the place of that text. -/
theorem specifiers_sublist (fuel : ℕ) (recordable : ∀ part ∈ parts, part.2.Recordable)
    (undisturbed : Undisturbed parts rest) (enough : (sourceText parts rest).length ≤ fuel) :
    (specifiers parts).Sublist
      ((searchFrom importRegex fuel (sourceText parts rest)).map (submatch 6)) := by
  induction fuel generalizing parts with
  | zero =>
    cases parts with
    | nil => exact List.nil_sublist _
    | cons part parts =>
      obtain ⟨before, d⟩ := part
      have own : d.Recordable := recordable (before, d) (by simp)
      obtain ⟨captures, here, -⟩ := head?_ways_of_recordable own (sourceText parts rest)
      have shorter := (length_lt_of_way here).2
      rw [sourceText_cons, List.length_append] at enough
      omega
  | succ fuel ih =>
    cases parts with
    | nil => exact List.nil_sublist _
    | cons part parts =>
      obtain ⟨before, d⟩ := part
      obtain ⟨within, later⟩ := undisturbed
      have own : d.Recordable := recordable (before, d) (by simp)
      have others : ∀ part ∈ parts, part.2.Recordable := (List.forall_mem_cons.1 recordable).2
      rw [sourceText_cons] at enough ⊢
      rw [searchFrom]
      rcases search_append_cases before (d.text ++ sourceText parts rest) with
        ⟨after, way, filled, inside, starts, found⟩ | found
      · -- A match ends before the declaration.
        obtain ⟨left, split⟩ := within after filled inside way starts
        obtain ⟨suffix, shorter⟩ := length_lt_of_way starts
        have isLeft : left <:+ before := by
          rw [← split, List.suffix_append_self_iff] at suffix
          exact suffix.trans inside
        have size := inside.length_le
        have next := @ih ((left, d) :: parts) (List.forall_mem_cons.2 ⟨own, others⟩)
          ⟨within.suffix isLeft, later⟩ (by
            rw [sourceText_cons, split]
            rw [List.length_append] at enough shorter
            omega)
        rw [sourceText_cons, split] at next
        rw [found]
        exact next.cons _
      · obtain ⟨captures, here, value⟩ := head?_ways_of_recordable own (sourceText parts rest)
        rw [found, search_of_head? here]
        have shorter := (length_lt_of_way here).2
        rw [List.length_append] at enough
        rw [List.map_cons, value]
        have next := ih others later (by
          dsimp only at shorter
          omega)
        exact next.cons_cons _

/-- If all declarations are recordable and nothing in front of them disturbs the search, all are
recorded. -/
theorem recordsAll_of_undisturbed (recordable : ∀ part ∈ parts, part.2.Recordable)
    (undisturbed : Undisturbed parts rest) : RecordsAll parts rest := by
  have found := specifiers_sublist (sourceText parts rest).length recordable undisturbed le_rfl
  have texts := found.map String.ofList
  rw [List.map_map] at texts
  rw [RecordsAll]
  refine texts.trans ?_
  simp only [importsOf, parseModule, extractExports, extractImports, List.nil_append,
    String.toList_ofList]
  exact List.sublist_append_left ..

/-- No match begins in the text, with what follows it. -/
def NoneBegins (text following : Text) : Prop :=
  ∀ after, after ≠ [] → after <:+ text → ways importRegex (after ++ following) = []

/-- Matches begin where declarations do, and nowhere else. -/
def OnlyAtDeclarations : List (Text × Declaration) → Text → Prop
  | [], rest => NoneBegins rest []
  | (before, d) :: parts, rest =>
    NoneBegins before (d.text ++ sourceText parts rest) ∧
      NoneBegins d.text.tail (sourceText parts rest) ∧ OnlyAtDeclarations parts rest

/-- What is found at the declarations. -/
def foundAt : List (Text × Declaration) → Text → List Text
  | [], _ => []
  | (_, d) :: parts, rest =>
    (((ways importRegex (d.text ++ sourceText parts rest)).head?.map fun way =>
      submatch 6 way.2).toList) ++ foundAt parts rest

/-- A source of legal declarations with nothing else that is taken for an import. -/
structure PlainSource (parts : List (Text × Declaration)) (rest : Text) : Prop where
  legal : ∀ part ∈ parts, part.2.Legal
  onlyAtDeclarations : OnlyAtDeclarations parts rest
  static : matches_ dynamicImportRegex (sourceText parts rest) = []

theorem undisturbed_of_onlyAtDeclarations (only : OnlyAtDeclarations parts rest) :
    Undisturbed parts rest := by
  induction parts with
  | nil => trivial
  | cons part parts ih =>
    obtain ⟨none, -, later⟩ := only
    refine ⟨fun after filled inside way starts => ?_, ih later⟩
    rw [none after filled inside] at starts
    cases starts

theorem eq_or_suffix_tail {after text : Text} (suffix : after <:+ text) :
    after = text ∨ after <:+ text.tail := by
  cases text with
  | nil => exact .inr suffix
  | cons c text => exact List.suffix_cons_iff.1 suffix

/-- What a match leaves of a declaration is behind its first character. -/
theorem exists_left_of_way {d : Declaration} (legal : d.Legal) {following : Text}
    {way : Text × Captures}
    (here : (ways importRegex (d.text ++ following)).head? = some way) :
    ∃ left, left <:+ d.text.tail ∧ way.1 = left ++ following := by
  obtain ⟨suffix, shorter⟩ := length_lt_of_way here
  obtain ⟨matched, split, taken⟩ :=
    takes_of_mem_ways importRegex _ way (List.mem_of_mem_head? here)
  obtain ⟨found, rfl, -⟩ := exists_found_of_matches taken
  obtain ⟨blank, clause, beforeFrom, afterFrom, m, rfl, -, -, -, -, same⟩ :=
    eq_importFrom_of_found legal split
  -- The specifier that is taken ends before the closing quote of the declaration.
  have within : found.specifier.length ≤ m.body.length := by
    rcases List.append_eq_append_iff.1 same with ⟨more, longer, behind⟩ | ⟨more, whole, -⟩
    · cases more with
      | nil => rw [longer, List.append_nil]
      | cons c more =>
        obtain ⟨closes, -⟩ := List.cons.inj behind
        have plain := found.specifier_isSpecifier.2 m.quote (by rw [longer, closes]; simp)
        exact absurd (m.quotes.symm.trans plain) (by decide)
    · rw [whole, List.length_append]
      exact Nat.le_add_right ..
  have sizes := congrArg List.length same
  simp only [List.length_append, List.length_cons] at sizes
  obtain ⟨left, isLeft⟩ := List.suffix_of_suffix_length_le (List.suffix_append _ following) suffix
    (by omega)
  refine ⟨left, ?_, isLeft.symm⟩
  rw [← isLeft, List.suffix_append_self_iff] at suffix
  rw [← isLeft, List.length_append, List.length_append] at shorter
  exact (eq_or_suffix_tail suffix).resolve_left fun whole => by
    rw [whole] at shorter
    exact lt_irrefl _ shorter

/-- In such a source the search finds what there is at the declarations. -/
theorem searchFrom_eq_foundAt (legal : ∀ part ∈ parts, part.2.Legal)
    (only : OnlyAtDeclarations parts rest) (fuel : ℕ)
    (enough : (sourceText parts rest).length ≤ fuel) :
    (searchFrom importRegex fuel (sourceText parts rest)).map (submatch 6) =
      foundAt parts rest := by
  induction parts generalizing fuel with
  | nil =>
    have passed := searchFrom_append_of_none fuel only
    rw [List.append_nil] at passed
    rw [sourceText, List.flatMap_nil, List.nil_append, passed, foundAt]
    cases fuel with
    | zero => rfl
    | succ fuel => rfl
  | cons part parts ih =>
    obtain ⟨before, d⟩ := part
    obtain ⟨none, inside, later⟩ := only
    have own : d.Legal := legal (before, d) (by simp)
    have others : ∀ part ∈ parts, part.2.Legal := (List.forall_mem_cons.1 legal).2
    rw [sourceText_cons] at enough ⊢
    rw [searchFrom_append_of_none fuel none, foundAt]
    cases here : (ways importRegex (d.text ++ sourceText parts rest)).head? with
    | none =>
      have noWay := List.head?_eq_none_iff.1 here
      have passed : NoneBegins d.text (sourceText parts rest) := by
        intro after filled suffix
        rcases eq_or_suffix_tail suffix with rfl | behind
        · exact noWay
        · exact inside after filled behind
      simp only [List.length_append] at enough
      rw [searchFrom_append_of_none fuel passed]
      exact ih others later fuel (by omega)
    | some way =>
      obtain ⟨left, isLeft, split⟩ := exists_left_of_way own here
      have shorter := (length_lt_of_way here).2
      simp only [List.length_append] at enough shorter
      obtain ⟨fuel, rfl⟩ : ∃ less, fuel = less + 1 := ⟨fuel - 1, by omega⟩
      rw [searchFrom, search_of_head? here]
      dsimp only
      rw [split, searchFrom_append_of_none fuel fun after filled suffix =>
        inside after filled (suffix.trans isLeft), List.map_cons, ih others later fuel (by
          rw [split, List.length_append] at shorter
          omega)]
      rfl

theorem length_foundAt_le (parts : List (Text × Declaration)) (rest : Text) :
    (foundAt parts rest).length ≤ parts.length := by
  induction parts with
  | nil => exact le_rfl
  | cons part parts ih =>
    rw [foundAt, List.length_append, List.length_cons]
    have one := Option.length_toList_le (o := (ways importRegex
      (part.2.text ++ sourceText parts rest)).head?.map fun way => submatch 6 way.2)
    omega

/-- If what is found are the specifiers, all declarations are recordable. -/
theorem recordable_of_foundAt (legal : ∀ part ∈ parts, part.2.Legal)
    (all : specifiers parts = foundAt parts rest) : ∀ part ∈ parts, part.2.Recordable := by
  induction parts with
  | nil => simp
  | cons part parts ih =>
    obtain ⟨before, d⟩ := part
    have own : d.Legal := legal (before, d) (by simp)
    have others : ∀ part ∈ parts, part.2.Legal := (List.forall_mem_cons.1 legal).2
    rw [foundAt] at all
    cases here : (ways importRegex (d.text ++ sourceText parts rest)).head? with
    | none =>
      have sizes := congrArg List.length all
      have most := length_foundAt_le parts rest
      simp only [here, specifiers, List.length_map, List.length_cons, Option.map_none,
        Option.toList_none, List.nil_append] at sizes
      omega
    | some way =>
      rw [here] at all
      obtain ⟨value, rest⟩ := List.cons.inj all
      have recordable := (way_iff own (List.mem_of_mem_head? here)).1.1 value.symm
      exact List.forall_mem_cons.2 ⟨recordable, ih others rest⟩

/-- All declarations are recorded if they are recordable and nothing disturbs the search; and in a
source in which nothing else is taken for an import, only if they are recordable. -/
theorem recordsAll_of_recordable (parts : List (Text × Declaration)) (rest : Text) :
    ((∀ part ∈ parts, part.2.Recordable) ∧ Undisturbed parts rest → RecordsAll parts rest) ∧
    (PlainSource parts rest →
      (RecordsAll parts rest ↔ ∀ part ∈ parts, part.2.Recordable)) := by
  refine ⟨fun ⟨recordable, undisturbed⟩ => recordsAll_of_undisturbed recordable undisturbed,
    fun plain => ⟨fun records => ?_, fun recordable => recordsAll_of_undisturbed recordable
      (undisturbed_of_onlyAtDeclarations plain.onlyAtDeclarations)⟩⟩
  have dependencies : importsOf (String.ofList (sourceText parts rest)) =
      (foundAt parts rest).map String.ofList := by
    rw [← searchFrom_eq_foundAt plain.legal plain.onlyAtDeclarations _ le_rfl, List.map_map]
    simp only [importsOf, parseModule, extractExports, extractImports, List.nil_append,
      String.toList_ofList, plain.static, List.map_nil, List.append_nil]
    rfl
  rw [RecordsAll, dependencies] at records
  have all := records.eq_of_length_le (by
    rw [List.length_map, List.length_map, specifiers, List.length_map]
    exact length_foundAt_le parts rest)
  exact recordable_of_foundAt plain.legal
    (List.map_injective_iff.2 (fun _ _ => String.ofList_inj.1) all)

/-- The specifier `'m'`. -/
def singleLetter : ModuleSpecifier where
  quote := '\''
  body := ['m']
  value := ['m']
  quotes := by decide
  decodes := .plain (by decide) (by decide) (by decide) .nil

/-- Nothing is found in `import 'm'`, `import{a}from'm'` and `export * from 'm'`. -/
theorem not_recordsAll_singleLetter :
    ¬RecordsAll [([], .bareImport [' '] singleLetter)] [] ∧
    ¬RecordsAll [([], .importFrom [] (.named ['a']) [] [] singleLetter)] [] ∧
    ¬RecordsAll [([], .exportAll [' '] [' '] [' '] singleLetter)] [] := by
  have missed {d : Declaration} (none : importsOf (String.ofList d.text) = []) :
      ¬RecordsAll [([], d)] [] := by
    intro records
    rw [RecordsAll, sourceText, List.flatMap_singleton, List.nil_append, List.append_nil, none,
      List.sublist_nil] at records
    cases records
  exact ⟨missed (by decide +kernel), missed (by decide +kernel), missed (by decide +kernel)⟩

end Sources

end ESModuleLoader

end ProtoJS.Modules
