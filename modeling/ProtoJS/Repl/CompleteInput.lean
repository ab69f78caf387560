import Mathlib
import ProtoJS.Strings.Extraction

/-! # When an input of the REPL is complete

`isCompleteInput` counts the brackets outside of string literals. A quote of the kind that opened
a literal closes it, whether or not a backslash stands in front of it.
-/

namespace ProtoJS.Repl

open Strings

/-- The variables of the loop of `isCompleteInput`. -/
structure Counters where
  braces : ℤ := 0
  brackets : ℤ := 0
  parens : ℤ := 0
  inString : Bool := false
  stringChar : Char := '\x00'
deriving DecidableEq, Repr

/-- One turn of the loop. -/
def Counters.scan (s : Counters) (c : Char) : Counters :=
  if s.inString = false ∧ (c = '"' ∨ c = '\'') then { s with inString := true, stringChar := c }
  else if s.inString = true ∧ c = s.stringChar then { s with inString := false }
  else if s.inString = false then
    if c = '{' then { s with braces := s.braces + 1 }
    else if c = '}' then { s with braces := s.braces - 1 }
    else if c = '[' then { s with brackets := s.brackets + 1 }
    else if c = ']' then { s with brackets := s.brackets - 1 }
    else if c = '(' then { s with parens := s.parens + 1 }
    else if c = ')' then { s with parens := s.parens - 1 }
    else s
  else s

def isCompleteInput (input : Text) : Bool :=
  let s := input.foldl Counters.scan {}
  s.braces = 0 && s.brackets = 0 && s.parens = 0 && !s.inString

/-! ### Nested texts -/

inductive Bracket
  | brace
  | bracket
  | paren
deriving DecidableEq, Repr

def Bracket.opening : Bracket → Char
  | .brace => '{'
  | .bracket => '['
  | .paren => '('

def Bracket.closing : Bracket → Char
  | .brace => '}'
  | .bracket => ']'
  | .paren => ')'

inductive Quote
  | double
  | single
deriving DecidableEq, Repr

def Quote.char : Quote → Char
  | .double => '"'
  | .single => '\''

inductive LiteralCharacter
  | plain (c : Char)
  | escaped (c : Char)
deriving DecidableEq, Repr

def LiteralCharacter.text : LiteralCharacter → Text
  | .plain c => [c]
  | .escaped c => ['\\', c]

/-- A string literal. What stands for itself is neither its quote nor a backslash, and does not end
the line. -/
structure Literal where
  quote : Quote
  characters : List LiteralCharacter
  plain : ∀ c, .plain c ∈ characters → c ≠ quote.char ∧ c ≠ '\\' ∧ c ≠ '\n' ∧ c ≠ '\r'

def Literal.body (l : Literal) : Text := l.characters.flatMap LiteralCharacter.text

/-- A character that is neither a bracket nor a quote. -/
def IsOther (c : Char) : Prop :=
  (∀ kind : Bracket, c ≠ kind.opening ∧ c ≠ kind.closing) ∧ ∀ quote : Quote, c ≠ quote.char

/-- Properly nested brackets with other characters and literals between them. -/
inductive Nested
  | nil
  | char (c : Char) (other : IsOther c) (rest : Nested)
  | literal (l : Literal) (rest : Nested)
  | pair (kind : Bracket) (inside rest : Nested)

namespace Nested

def text : Nested → Text
  | .nil => []
  | .char c _ rest => c :: rest.text
  | .literal l rest => l.quote.char :: (l.body ++ l.quote.char :: rest.text)
  | .pair kind inside rest => kind.opening :: (inside.text ++ kind.closing :: rest.text)

def literals : Nested → List Literal
  | .nil => []
  | .char _ _ rest => rest.literals
  | .literal l rest => l :: rest.literals
  | .pair _ inside rest => inside.literals ++ rest.literals

/-- The nested texts of which a nested text consists. -/
inductive Part : Nested → Nested → Prop
  | whole (w : Nested) : Part w w
  | char {c : Char} {other : IsOther c} {rest w : Nested} (part : Part rest w) :
      Part (.char c other rest) w
  | literal {l : Literal} {rest w : Nested} (part : Part rest w) : Part (.literal l rest) w
  | inside {kind : Bracket} {inside rest w : Nested} (part : Part inside w) :
      Part (.pair kind inside rest) w
  | behind {kind : Bracket} {inside rest w : Nested} (part : Part rest w) :
      Part (.pair kind inside rest) w

/-- The beginnings of a nested text that end inside a bracket pair or a literal. -/
inductive CutInside : Nested → Text → Prop
  | char {c : Char} {other : IsOther c} {rest : Nested} {p : Text} (cut : CutInside rest p) :
      CutInside (.char c other rest) (c :: p)
  | inLiteral {l : Literal} {rest : Nested} {p : Text} (front : p <+: l.body) :
      CutInside (.literal l rest) (l.quote.char :: p)
  | literal {l : Literal} {rest : Nested} {p : Text} (cut : CutInside rest p) :
      CutInside (.literal l rest) (l.quote.char :: (l.body ++ l.quote.char :: p))
  | inPair {kind : Bracket} {inside rest : Nested} {p : Text} (front : p <+: inside.text) :
      CutInside (.pair kind inside rest) (kind.opening :: p)
  | pair {kind : Bracket} {inside rest : Nested} {p : Text} (cut : CutInside rest p) :
      CutInside (.pair kind inside rest) (kind.opening :: (inside.text ++ kind.closing :: p))

/-- A nested text is an input, and no beginning of it that ends within it. -/
def ReadsRight (w : Nested) : Prop :=
  isCompleteInput w.text = true ∧ ∀ p, w.CutInside p → isCompleteInput p = false

/-- No literal escapes a quote of its own kind. -/
def Unescaped (w : Nested) : Prop :=
  ∀ l ∈ w.literals, .escaped l.quote.char ∉ l.characters

end Nested

/-! ### One character -/

namespace Counters

variable {s : Counters} {c : Char} {kind other : Bracket} {quote : Quote}

def count (s : Counters) : Bracket → ℤ
  | .brace => s.braces
  | .bracket => s.brackets
  | .paren => s.parens

/-- The counters of two states agree, and neither is in a literal. -/
def Level (s t : Counters) : Prop :=
  s.inString = false ∧ t.inString = false ∧ ∀ kind, t.count kind = s.count kind

theorem scan_opening (kind : Bracket) (outside : s.inString = false) :
    (s.scan kind.opening).inString = false ∧
      ∀ other, (s.scan kind.opening).count other =
        s.count other + if other = kind then 1 else 0 := by
  cases kind <;> refine ⟨by simp [scan, outside, Bracket.opening], ?_⟩ <;> intro other <;>
    cases other <;> simp [scan, outside, Bracket.opening, count]

theorem scan_closing (kind : Bracket) (outside : s.inString = false) :
    (s.scan kind.closing).inString = false ∧
      ∀ other, (s.scan kind.closing).count other =
        s.count other - if other = kind then 1 else 0 := by
  cases kind <;> refine ⟨by simp [scan, outside, Bracket.closing], ?_⟩ <;> intro other <;>
    cases other <;> simp [scan, outside, Bracket.closing, count]

theorem scan_other (outside : s.inString = false) (apart : IsOther c) : s.scan c = s := by
  have braces := apart.1 .brace
  have brackets := apart.1 .bracket
  have parens := apart.1 .paren
  have double := apart.2 .double
  have single := apart.2 .single
  simp only [Bracket.opening, Bracket.closing, Quote.char] at braces brackets parens double single
  simp [scan, outside, braces, brackets, parens, double, single]

theorem scan_quote (outside : s.inString = false) :
    s.scan quote.char = { s with inString := true, stringChar := quote.char } := by
  cases quote <;> simp [scan, outside, Quote.char]

theorem scan_inString (inside : s.inString = true) (apart : c ≠ s.stringChar) : s.scan c = s := by
  simp [scan, inside, apart]

theorem scan_stringChar (inside : s.inString = true) :
    s.scan s.stringChar = { s with inString := false } := by
  simp [scan, inside]

/-- In a literal nothing counts but its quote. -/
theorem foldl_scan_inString {body : Text} (inside : s.inString = true)
    (apart : s.stringChar ∉ body) : body.foldl scan s = s := by
  induction body with
  | nil => rfl
  | cons c body ih =>
    rw [List.mem_cons, not_or] at apart
    rw [List.foldl_cons, scan_inString inside (Ne.symm apart.1), ih apart.2]

theorem Level.trans {t u : Counters} (first : Level s t) (second : Level t u) : Level s u :=
  ⟨first.1, second.2.1, fun kind => (second.2.2 kind).trans (first.2.2 kind)⟩

/-- Behind a literal the scan goes on from where it was in front of it. -/
theorem exists_level_literal {body : Text} (outside : s.inString = false)
    (apart : quote.char ∉ body) :
    ∃ t, Level s t ∧ ∀ rest,
      (quote.char :: (body ++ quote.char :: rest)).foldl scan s = rest.foldl scan t := by
  refine ⟨{ s with inString := false, stringChar := quote.char }, ⟨outside, rfl, ?_⟩, ?_⟩
  · intro kind
    cases kind <;> rfl
  · intro rest
    have kept := foldl_scan_inString
      (s := { s with inString := true, stringChar := quote.char }) rfl apart
    have closed := scan_stringChar
      (s := { s with inString := true, stringChar := quote.char }) rfl
    rw [List.foldl_cons, scan_quote outside, List.foldl_append, kept, List.foldl_cons, closed]

/-- Brackets are level behind them with what is level between them. -/
theorem exists_level_pair {inside : Text} (kind : Bracket) (outside : s.inString = false)
    (level : ∀ t : Counters, t.inString = false → Level t (inside.foldl scan t)) :
    ∃ t, Level s t ∧ ∀ rest,
      (kind.opening :: (inside ++ kind.closing :: rest)).foldl scan s = rest.foldl scan t := by
  obtain ⟨behind, opened⟩ := scan_opening kind outside
  obtain ⟨-, within, same⟩ := level _ behind
  obtain ⟨closed, counts⟩ := scan_closing kind within
  refine ⟨_, ⟨outside, closed, ?_⟩, ?_⟩
  · intro other
    rw [counts, same, opened]
    ring
  · intro rest
    rw [List.foldl_cons, List.foldl_append, List.foldl_cons]

/-- A beginning of a text between two marks ends in front of them, between them or behind. -/
theorem prefix_cases {first last : Char} {middle rest p : Text}
    (front : p <+: first :: (middle ++ last :: rest)) :
    p = [] ∨ (∃ q, p = first :: q ∧ q <+: middle) ∨
      ∃ q, p = first :: (middle ++ last :: q) ∧ q <+: rest := by
  rcases List.prefix_cons_iff.mp front with rfl | ⟨q, rfl, tail⟩
  · exact .inl rfl
  obtain ⟨after, split⟩ := tail
  rcases List.append_eq_append_iff.mp split with ⟨more, rfl, -⟩ | ⟨more, rfl, behind⟩
  · exact .inr (.inl ⟨q, rfl, List.prefix_append q more⟩)
  · rcases List.cons_eq_append_iff.mp behind with ⟨rfl, -⟩ | ⟨q, rfl, tail⟩
    · exact .inr (.inl ⟨_, rfl, by rw [List.append_nil]⟩)
    · exact .inr (.inr ⟨q, rfl, after, tail.symm⟩)

end Counters

/-! ### Nested texts whose literals escape no quote -/

namespace Nested

open Counters

variable {w : Nested} {p : Text} {s : Counters}

/-- A literal holds its quote if and only if it escapes it. -/
theorem quote_mem_body {l : Literal} :
    l.quote.char ∈ l.body ↔ .escaped l.quote.char ∈ l.characters := by
  rw [Literal.body, List.mem_flatMap]
  constructor
  · rintro ⟨character, member, found⟩
    cases character with
    | plain c =>
      rw [LiteralCharacter.text, List.mem_singleton] at found
      exact absurd found.symm (l.plain c member).1
    | escaped c =>
      rw [LiteralCharacter.text, List.mem_pair] at found
      rcases found with backslash | rfl
      · exact absurd backslash (by cases l.quote <;> decide)
      · exact member
  · intro member
    exact ⟨_, member, List.mem_cons_of_mem _ List.mem_cons_self⟩

theorem level_text (unescaped : w.Unescaped) (outside : s.inString = false) :
    Level s (w.text.foldl scan s) := by
  induction w generalizing s with
  | nil => exact ⟨outside, outside, fun _ => rfl⟩
  | char c other rest ih =>
    rw [text, List.foldl_cons, scan_other outside other]
    exact ih unescaped outside
  | literal l rest ih =>
    rw [Unescaped, literals, List.forall_mem_cons] at unescaped
    obtain ⟨t, level, read⟩ :=
      exists_level_literal outside fun member => unescaped.1 (quote_mem_body.mp member)
    rw [text, read]
    exact level.trans (ih unescaped.2 level.2.1)
  | pair kind inside rest ihInside ih =>
    rw [Unescaped, literals, List.forall_mem_append] at unescaped
    obtain ⟨t, level, read⟩ := exists_level_pair kind outside fun t => ihInside unescaped.1
    rw [text, read]
    exact level.trans (ih unescaped.2 level.2.1)

/-- No beginning of a nested text closes a bracket that it does not open. -/
theorem le_count_of_prefix (unescaped : w.Unescaped) (outside : s.inString = false)
    (front : p <+: w.text) (kind : Bracket) : s.count kind ≤ (p.foldl scan s).count kind := by
  induction w generalizing s p with
  | nil =>
    rw [text, List.prefix_nil] at front
    rw [front, List.foldl_nil]
  | char c other rest ih =>
    rcases List.prefix_cons_iff.mp front with rfl | ⟨q, rfl, tail⟩
    · rw [List.foldl_nil]
    · rw [List.foldl_cons, scan_other outside other]
      exact ih unescaped outside tail
  | literal l rest ih =>
    rw [Unescaped, literals, List.forall_mem_cons] at unescaped
    have apart : l.quote.char ∉ l.body := fun member => unescaped.1 (quote_mem_body.mp member)
    rcases prefix_cases front with rfl | ⟨q, rfl, between⟩ | ⟨q, rfl, tail⟩
    · rw [List.foldl_nil]
    · rw [List.foldl_cons, scan_quote outside,
        foldl_scan_inString rfl fun member => apart (between.subset member)]
      cases kind <;> exact le_rfl
    · obtain ⟨t, level, read⟩ := exists_level_literal outside apart
      rw [read, ← level.2.2 kind]
      exact ih unescaped.2 level.2.1 tail
  | pair outer inside rest ihInside ih =>
    rw [Unescaped, literals, List.forall_mem_append] at unescaped
    rcases prefix_cases front with rfl | ⟨q, rfl, between⟩ | ⟨q, rfl, tail⟩
    · rw [List.foldl_nil]
    · obtain ⟨behind, opened⟩ := scan_opening outer outside
      have more := ihInside unescaped.1 behind between
      rw [opened] at more
      rw [List.foldl_cons]
      split_ifs at more <;> omega
    · obtain ⟨t, level, read⟩ := exists_level_pair outer outside fun t => level_text unescaped.1
      rw [read, ← level.2.2 kind]
      exact ih unescaped.2 level.2.1 tail

/-- A beginning that ends inside is in a literal, or has a bracket open. -/
theorem open_of_cutInside (unescaped : w.Unescaped) (outside : s.inString = false)
    (cut : w.CutInside p) :
    (p.foldl scan s).inString = true ∨ ∃ kind, s.count kind < (p.foldl scan s).count kind := by
  induction cut generalizing s with
  | @char c other rest p cut ih =>
    rw [List.foldl_cons, scan_other outside other]
    exact ih unescaped outside
  | inLiteral between =>
    rw [Unescaped, literals, List.forall_mem_cons] at unescaped
    left
    rw [List.foldl_cons, scan_quote outside, foldl_scan_inString rfl fun member =>
      unescaped.1 (quote_mem_body.mp (between.subset member))]
  | literal cut ih =>
    rw [Unescaped, literals, List.forall_mem_cons] at unescaped
    obtain ⟨t, level, read⟩ :=
      exists_level_literal outside fun member => unescaped.1 (quote_mem_body.mp member)
    simp only [read, ← level.2.2]
    exact ih unescaped.2 level.2.1
  | @inPair outer inside rest p between =>
    rw [Unescaped, literals, List.forall_mem_append] at unescaped
    obtain ⟨behind, opened⟩ := scan_opening outer outside
    have more := le_count_of_prefix unescaped.1 behind between outer
    rw [opened, if_pos rfl] at more
    right
    exact ⟨outer, by rw [List.foldl_cons]; omega⟩
  | @pair outer inside rest p cut ih =>
    rw [Unescaped, literals, List.forall_mem_append] at unescaped
    obtain ⟨t, level, read⟩ := exists_level_pair outer outside fun t => level_text unescaped.1
    simp only [read, ← level.2.2]
    exact ih unescaped.2 level.2.1

/-! ### Complete inputs -/

theorem isCompleteInput_iff {input : Text} :
    isCompleteInput input = true ↔
      (input.foldl scan {}).inString = false ∧ ∀ kind, (input.foldl scan {}).count kind = 0 := by
  simp only [isCompleteInput, Bool.and_eq_true, decide_eq_true_eq, Bool.not_eq_true']
  constructor
  · rintro ⟨⟨⟨braces, brackets⟩, parens⟩, outside⟩
    refine ⟨outside, ?_⟩
    intro kind
    cases kind
    · exact braces
    · exact brackets
    · exact parens
  · rintro ⟨outside, counts⟩
    exact ⟨⟨⟨counts .brace, counts .bracket⟩, counts .paren⟩, outside⟩

private theorem count_initial (kind : Bracket) : ({} : Counters).count kind = 0 := by
  cases kind <;> rfl

theorem readsRight_of_unescaped (unescaped : w.Unescaped) : w.ReadsRight := by
  constructor
  · obtain ⟨-, outside, counts⟩ := level_text (s := {}) unescaped rfl
    exact isCompleteInput_iff.mpr ⟨outside, fun kind => (counts kind).trans (count_initial kind)⟩
  · intro p cut
    rw [← Bool.not_eq_true, isCompleteInput_iff]
    rintro ⟨outside, counts⟩
    rcases open_of_cutInside (s := {}) unescaped rfl cut with within | ⟨kind, more⟩
    · exact absurd (outside.symm.trans within) Bool.false_ne_true
    · rw [counts, count_initial] at more
      exact absurd more (lt_irrefl 0)

/-- A literal that escapes its quote passes for complete where it does so first. -/
theorem not_escaped_of_readsRight {l : Literal} {rest : Nested}
    (right : (literal l rest).ReadsRight) : .escaped l.quote.char ∉ l.characters := by
  intro escaped
  obtain ⟨front, back, body, apart⟩ := List.eq_append_cons_of_mem (quote_mem_body.mpr escaped)
  obtain ⟨t, level, read⟩ := exists_level_literal (s := {}) rfl apart
  have cut : (literal l rest).CutInside (l.quote.char :: (front ++ [l.quote.char])) := by
    apply CutInside.inLiteral
    exact ⟨back, by rw [body, List.append_assoc, List.singleton_append]⟩
  have incomplete := right.2 _ cut
  rw [← Bool.not_eq_true, isCompleteInput_iff, read] at incomplete
  apply incomplete
  exact ⟨level.2.1, fun kind => (level.2.2 kind).trans (count_initial kind)⟩

theorem literals_subset_of_part {part : Nested} (isPart : w.Part part) :
    part.literals ⊆ w.literals := by
  induction isPart with
  | whole w => exact List.Subset.refl _
  | char _ ih => exact ih
  | literal _ ih => exact List.Subset.trans ih (List.subset_cons_self _ _)
  | inside _ ih => exact List.Subset.trans ih (List.subset_append_left _ _)
  | behind _ ih => exact List.Subset.trans ih (List.subset_append_right _ _)

/-- Every literal stands at the front of a part. -/
theorem exists_part_of_mem_literals {l : Literal} (member : l ∈ w.literals) :
    ∃ rest, w.Part (.literal l rest) := by
  induction w with
  | nil => exact absurd member List.not_mem_nil
  | char c other rest ih =>
    obtain ⟨behind, part⟩ := ih member
    exact ⟨behind, .char part⟩
  | literal first rest ih =>
    rcases List.mem_cons.mp member with rfl | later
    · exact ⟨rest, .whole _⟩
    · obtain ⟨behind, part⟩ := ih later
      exact ⟨behind, .literal part⟩
  | pair kind inside rest ihInside ih =>
    rcases List.mem_append.mp member with within | later
    · obtain ⟨behind, part⟩ := ihInside within
      exact ⟨behind, .inside part⟩
    · obtain ⟨behind, part⟩ := ih later
      exact ⟨behind, .behind part⟩

/-- A nested text and all its parts are read right, if and only if no literal in it escapes a quote
of its own kind. -/
theorem readsRight_parts_iff (w : Nested) :
    (∀ part, w.Part part → part.ReadsRight) ↔ w.Unescaped := by
  constructor
  · intro right l member
    obtain ⟨rest, part⟩ := exists_part_of_mem_literals member
    exact not_escaped_of_readsRight (right _ part)
  · intro unescaped part isPart
    apply readsRight_of_unescaped
    intro l member
    exact unescaped l (literals_subset_of_part isPart member)

/-- `"a\"b"`. -/
def escapedQuote : Nested :=
  .literal
    { quote := .double
      characters := [.plain 'a', .escaped '"', .plain 'b']
      plain := by
        intro c member
        simp only [List.mem_cons, LiteralCharacter.plain.injEq, reduceCtorEq, List.not_mem_nil,
          or_false, false_or] at member
        rcases member with rfl | rfl <;> decide } .nil

/-- An escaped quote ends the literal for the counters, and its last quote opens another. -/
theorem not_readsRight_escapedQuote : ¬ ∀ w : Nested, w.ReadsRight := by
  intro right
  exact absurd (right escapedQuote).1 (by decide)

end Nested

end ProtoJS.Repl
