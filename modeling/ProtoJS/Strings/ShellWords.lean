import ProtoJS.Strings.Extraction

/-! # Command lines of a POSIX shell

Token recognition and quoting for one line. An unquoted blank or operator ends a word; between
double quotes only `$`, the backquote, `"` and some backslashes mean more than themselves. Where an
expansion would begin the reading stops.
-/

namespace ProtoJS.Strings.Shell

inductive Token where
  | word (text : Text)
  | ioNumber (text : Text)
  | operator (c : Char)
deriving DecidableEq, Repr

/-- A word so far, after quote removal, and whether a part of it was quoted. -/
structure Word where
  text : Text := []
  quoted : Bool := false
deriving DecidableEq, Repr

inductive Mode where
  | plain
  | escaped
  | quoted
  | quotedEscape
  | single
  | comment
deriving DecidableEq, Repr

/-- What stops the reading of a line. -/
inductive Trouble where
  | expansion (c : Char)
  | unclosed
deriving DecidableEq, Repr

structure Reader where
  tokens : List Token := []
  word : Option Word := none
  mode : Mode := .plain
deriving DecidableEq, Repr

def isBlank (c : Char) : Bool := c = ' ' || c = '\t'

def isOperator (c : Char) : Bool := c ∈ ['\n', '&', ';', '|', '(', ')', '<', '>']

/-- Unquoted, these begin a substitution or a pattern; a tilde does so in front of a word. -/
def isExpansion (c : Char) : Bool := c ∈ ['$', '`', '*', '?', '[']

/-- Between double quotes a backslash takes away the meaning of these. -/
def isEscapable (c : Char) : Bool := c ∈ ['$', '`', '"', '\\']

namespace Reader

/-- The word goes on, or begins. -/
def push (r : Reader) (text : Text) (mode : Mode) : Reader :=
  let word := r.word.getD {}
  { r with word := some { word with text := word.text ++ text }, mode := mode }

/-- A quote belongs to the word although it is not part of its text. -/
def quote (r : Reader) (mode : Mode) : Reader :=
  let word := r.word.getD {}
  { r with word := some { word with quoted := true }, mode := mode }

/-- The end of a word. Digits in front of a redirection are no word but its number. -/
def endWord (r : Reader) (delimiter : Char) : Reader :=
  match r.word with
  | none => r
  | some word =>
    let token := if !word.quoted && word.text.all Char.isDigit && delimiter ∈ ['<', '>']
      then Token.ioNumber word.text else Token.word word.text
    { r with tokens := r.tokens ++ [token], word := none }

def step (r : Reader) (c : Char) : Except Trouble Reader :=
  match r.mode with
  | .plain =>
    if c = '\\' then .ok { r with mode := .escaped }
    else if c = '"' then .ok (r.quote .quoted)
    else if c = '\'' then .ok (r.quote .single)
    else if isExpansion c || (c = '~' && r.word.isNone) then .error (.expansion c)
    else if isBlank c then .ok (r.endWord c)
    else if isOperator c then
      .ok { r.endWord c with tokens := (r.endWord c).tokens ++ [.operator c] }
    else if c = '#' && r.word.isNone then .ok { r with mode := .comment }
    else .ok (r.push [c] .plain)
  | .escaped =>
    -- an escaped newline is no part of the line
    if c = '\n' then .ok { r with mode := .plain }
    else .ok ((r.quote .plain).push [c] .plain)
  | .quoted =>
    if c = '"' then .ok { r with mode := .plain }
    else if c = '\\' then .ok { r with mode := .quotedEscape }
    else if c = '$' || c = '`' then .error (.expansion c)
    else .ok (r.push [c] .quoted)
  | .quotedEscape =>
    if c = '\n' then .ok { r with mode := .quoted }
    else if isEscapable c then .ok (r.push [c] .quoted)
    else .ok (r.push ['\\', c] .quoted)
  | .single =>
    if c = '\'' then .ok { r with mode := .plain }
    else .ok (r.push [c] .single)
  | .comment =>
    if c = '\n' then .ok { r with tokens := r.tokens ++ [.operator c], mode := .plain }
    else .ok r

def run (r : Reader) (line : Text) : Except Trouble Reader := line.foldlM step r

/-- The end of the line. -/
def finish (r : Reader) : Except Trouble (List Token) :=
  match r.mode with
  | .plain | .comment => .ok (r.endWord '\n').tokens
  | .escaped => .ok ((r.push ['\\'] .plain).endWord '\n').tokens
  | .quoted | .quotedEscape | .single => .error .unclosed

end Reader

def tokensOf (line : Text) : Except Trouble (List Token) := do
  let r ← Reader.run {} line
  r.finish

structure Redirection where
  number : Option Text
  operator : Char
  target : Text
deriving DecidableEq, Repr

structure SimpleCommand where
  words : List Text := []
  redirections : List Redirection := []
deriving DecidableEq, Repr

def isRedirection (c : Char) : Bool := c = '<' || c = '>'

/-- Words and redirections in any order, and no operator else. -/
def simpleCommand? : List Token → Option SimpleCommand
  | [] => some {}
  | .word text :: rest =>
    (simpleCommand? rest).map fun command => { command with words := text :: command.words }
  | .ioNumber number :: .operator c :: .word target :: rest =>
    if isRedirection c then (simpleCommand? rest).map fun command =>
      { command with redirections := ⟨some number, c, target⟩ :: command.redirections }
    else none
  | .operator c :: .word target :: rest =>
    if isRedirection c then (simpleCommand? rest).map fun command =>
      { command with redirections := ⟨none, c, target⟩ :: command.redirections }
    else none
  | _ => none

/-- The one simple command that a line is, without any expansion. -/
def readCommand (line : Text) : Option SimpleCommand :=
  (tokensOf line).toOption.bind simpleCommand?

namespace Reader

variable {r next : Reader} {w x v : Text} {c : Char} {tokens : List Token}

theorem run_append (r : Reader) (first second : Text) :
    r.run (first ++ second) = .ok next ↔
      ∃ middle, r.run first = .ok middle ∧ middle.run second = .ok next := by
  rw [run, List.foldlM_append]
  change (r.run first).bind _ = _ ↔ _
  cases r.run first with
  | error trouble => simp [Except.bind]
  | ok middle => simp [Except.bind, run]

theorem run_cons (r : Reader) (c : Char) (rest : Text) :
    r.run (c :: rest) = .ok next ↔
      ∃ middle, r.step c = .ok middle ∧ middle.run rest = .ok next := by
  rw [run, List.foldlM_cons]
  change (r.step c).bind _ = _ ↔ _
  cases r.step c with
  | error trouble => simp [Except.bind]
  | ok middle => simp [Except.bind, run]

@[simp] theorem run_nil (r : Reader) : r.run [] = .ok r := rfl

/-- Unquoted, such a character is only a part of a word. -/
def isOrdinary (c : Char) : Bool :=
  !(c ∈ ['\\', '"', '\'', '#', '~'] || isExpansion c || isBlank c || isOperator c)

theorem step_ordinary (ordinary : isOrdinary c = true) (plain : r.mode = .plain) :
    r.step c = .ok (r.push [c] .plain) := by
  simp only [isOrdinary, List.mem_cons, List.not_mem_nil, or_false, Bool.not_eq_true',
    Bool.or_eq_false_iff, decide_eq_false_iff_not, not_or] at ordinary
  simp [step, plain, ordinary]

theorem run_ordinary (ordinary : x.all isOrdinary = true) (nonempty : x ≠ [])
    (plain : r.mode = .plain) : r.run x = .ok (r.push x .plain) := by
  induction x generalizing r with
  | nil => exact absurd rfl nonempty
  | cons c rest ih =>
    obtain ⟨first, later⟩ := Bool.and_eq_true_iff.mp ordinary
    refine (run_cons r c rest).mpr ⟨_, step_ordinary first plain, ?_⟩
    cases rest with
    | nil => rfl
    | cons d rest =>
      rw [ih later (List.cons_ne_nil d rest) rfl]
      simp [push]

section Tokens

theorem prefix_endWord (r : Reader) (c : Char) : r.tokens <+: (r.endWord c).tokens := by
  unfold endWord
  split
  · exact List.prefix_rfl
  · exact List.prefix_append _ _

/-- What has been recognized stays. -/
theorem prefix_step (stepped : r.step c = .ok next) : r.tokens <+: next.tokens := by
  have ended := prefix_endWord r c
  unfold step at stepped
  split at stepped
  all_goals split_ifs at stepped
  all_goals cases stepped
  all_goals first
    | exact List.prefix_rfl
    | exact ended
    | exact ended.trans (List.prefix_append _ _)
    | exact List.prefix_append _ _

theorem prefix_run {line : Text} (ran : r.run line = .ok next) : r.tokens <+: next.tokens := by
  induction line generalizing r with
  | nil =>
    cases ran
    exact List.prefix_rfl
  | cons c rest ih =>
    obtain ⟨middle, stepped, ran⟩ := (run_cons r c rest).mp ran
    exact (prefix_step stepped).trans (ih ran)

theorem prefix_finish (finished : r.finish = .ok tokens) : r.tokens <+: tokens := by
  unfold finish at finished
  split at finished
  all_goals cases finished
  · exact prefix_endWord r _
  · exact prefix_endWord r _
  · exact prefix_endWord (r.push ['\\'] .plain) _

end Tokens

section Open

/-- A word is being read, and a part of it was quoted. -/
structure Open (r : Reader) (w : Text) : Prop where
  word : r.word = some ⟨w, true⟩
  mode : r.mode ≠ .comment

/-- A backslash between double quotes may still become a part of the word. -/
def debt : Mode → ℕ
  | .quotedEscape => 1
  | _ => 0

/-- The word goes on over a text: what is added to it, `v`, has all the blanks of the text and is no
longer than it. -/
structure Kept (r next : Reader) (w x v : Text) : Prop where
  tokens : next.tokens = r.tokens
  still : next.Open (w ++ v)
  blanks : v.count ' ' = x.count ' '
  length : v.length + debt next.mode ≤ x.length + debt r.mode
  escaped : next.mode = .escaped → x ≠ [] → x.getLast? = some '\\'

theorem Kept.snoc {middle : Reader} {more : Text} (first : Kept r middle w x v)
    (second : Kept middle next (w ++ v) [c] more) : Kept r next w (x ++ [c]) (v ++ more) where
  tokens := second.tokens.trans first.tokens
  still := by
    rw [← List.append_assoc]
    exact second.still
  blanks := by rw [List.count_append, List.count_append, first.blanks, second.blanks]
  length := by
    have start := first.length
    have last := second.length
    simp only [List.length_append, List.length_singleton] at last ⊢
    omega
  escaped mode _ := by
    rw [List.getLast?_append_of_ne_nil _ (List.cons_ne_nil c [])]
    exact second.escaped mode (List.cons_ne_nil c [])

section Steps

variable {mode : Mode} (opened : r.Open w)
include opened

theorem Open.push (text : Text) (blanks : text.count ' ' = [c].count ' ')
    (length : text.length + debt mode ≤ 1 + debt r.mode)
    (regular : mode ≠ .comment ∧ mode ≠ .escaped) : Kept r (r.push text mode) w [c] text where
  tokens := rfl
  still := ⟨by simp [Reader.push, opened.word], regular.1⟩
  blanks := blanks
  length := length
  escaped escaped _ := absurd escaped regular.2

theorem Open.skip (different : c ≠ ' ') (length : debt mode ≤ 1 + debt r.mode)
    (notComment : mode ≠ .comment) (escaped : mode = .escaped → c = '\\') :
    Kept r { r with mode := mode } w [c] [] where
  tokens := rfl
  still := ⟨by simp [opened.word], notComment⟩
  blanks := by simp [different]
  length := by simpa using length
  escaped is_escaped _ := by rw [escaped is_escaped]; rfl

theorem Open.quote_eq : r.quote mode = { r with mode := mode } := by
  simp [Reader.quote, opened.word]

theorem Open.endWord_eq (c : Char) :
    r.endWord c = { r with tokens := r.tokens ++ [.word w], word := none } := by
  simp [endWord, opened.word]

end Steps

/-- A character goes into the word that is being read, or an unquoted one ends it. -/
theorem step_of_open (opened : r.Open w) (stepped : r.step c = .ok next) :
    (∃ v, Kept r next w [c] v) ∨
      (debt r.mode = 0 ∧ ∃ more, next.tokens = r.tokens ++ .word w :: more) := by
  unfold step at stepped
  cases mode : r.mode with
  | plain =>
    simp only [mode, opened.quote_eq, opened.endWord_eq] at stepped
    split_ifs at stepped with backslash double single expansion blank operator hash
    · cases stepped
      refine .inl ⟨[], opened.skip (by rw [backslash]; decide) (by simp [debt]) nofun ?_⟩
      exact fun _ => backslash
    · cases stepped
      exact .inl ⟨[], opened.skip (by rw [double]; decide) (by simp [debt]) nofun nofun⟩
    · cases stepped
      exact .inl ⟨[], opened.skip (by rw [single]; decide) (by simp [debt]) nofun nofun⟩
    · cases stepped
      exact .inr ⟨rfl, [], rfl⟩
    · cases stepped
      exact .inr ⟨rfl, [.operator c], by simp⟩
    · simp [opened.word] at hash
    · cases stepped
      exact .inl ⟨[c], opened.push [c] rfl (by simp [debt]) ⟨nofun, nofun⟩⟩
  | escaped =>
    simp only [mode] at stepped
    split_ifs at stepped with newline
    · cases stepped
      exact .inl ⟨[], opened.skip (by rw [newline]; decide) (by simp [debt]) nofun nofun⟩
    · cases stepped
      rw [opened.quote_eq]
      exact .inl ⟨[c], opened.push [c] rfl (by simp [debt]) ⟨nofun, nofun⟩⟩
  | quoted =>
    simp only [mode] at stepped
    split_ifs at stepped with double backslash expansion
    · cases stepped
      exact .inl ⟨[], opened.skip (by rw [double]; decide) (by simp [debt]) nofun nofun⟩
    · cases stepped
      exact .inl ⟨[], opened.skip (by rw [backslash]; decide) (by simp [debt]) nofun nofun⟩
    · cases stepped
      exact .inl ⟨[c], opened.push [c] rfl (by simp [debt]) ⟨nofun, nofun⟩⟩
  | quotedEscape =>
    simp only [mode] at stepped
    split_ifs at stepped with newline escapable
    · cases stepped
      exact .inl ⟨[], opened.skip (by rw [newline]; decide) (by simp [debt]) nofun nofun⟩
    · cases stepped
      exact .inl ⟨[c], opened.push [c] rfl (by simp [debt]) ⟨nofun, nofun⟩⟩
    · cases stepped
      refine .inl ⟨['\\', c], opened.push _ ?_ (by simp [debt, mode]) ⟨nofun, nofun⟩⟩
      exact List.count_cons_of_ne (by decide)
  | single =>
    simp only [mode] at stepped
    split_ifs at stepped with single
    · cases stepped
      exact .inl ⟨[], opened.skip (by rw [single]; decide) (by simp [debt]) nofun nofun⟩
    · cases stepped
      exact .inl ⟨[c], opened.push [c] rfl (by simp [debt]) ⟨nofun, nofun⟩⟩
  | comment => exact absurd mode opened.mode

/-- Over a text the word is kept, or has ended with less than the text. -/
theorem run_of_open (opened : r.Open w) (ran : r.run x = .ok next) :
    (∃ v, Kept r next w x v) ∨
      ∃ v more, next.tokens = r.tokens ++ .word (w ++ v) :: more ∧
        v.length < x.length + debt r.mode := by
  induction x using List.reverseRecOn generalizing next with
  | nil =>
    cases ran
    refine .inl ⟨[], rfl, by rwa [List.append_nil], rfl, le_rfl, fun _ nonempty => ?_⟩
    exact absurd rfl nonempty
  | append_singleton front c ih =>
    obtain ⟨middle, ran, last⟩ := (run_append r front [c]).mp ran
    obtain ⟨_, stepped, done⟩ := (run_cons middle c []).mp last
    cases done
    rcases ih ran with ⟨v, kept⟩ | ⟨v, more, ended, shorter⟩
    · rcases step_of_open kept.still stepped with ⟨added, goesOn⟩ | ⟨plain, more, ended⟩
      · exact .inl ⟨v ++ added, kept.snoc goesOn⟩
      · refine .inr ⟨v, more, by rw [ended, kept.tokens], ?_⟩
        have length := kept.length
        rw [List.length_append, List.length_singleton]
        omega
    · obtain ⟨later, tokens⟩ := prefix_step stepped
      refine .inr ⟨v, more ++ later, by simp [← tokens, ended], ?_⟩
      rw [List.length_append]
      omega

/-- The word that is being read is the next token. -/
theorem finish_of_open (opened : r.Open w) (finished : r.finish = .ok tokens) :
    ∃ v more, tokens = r.tokens ++ .word (w ++ v) :: more := by
  unfold finish at finished
  cases mode : r.mode with
  | plain =>
    rw [mode] at finished
    cases finished
    exact ⟨[], [], by rw [opened.endWord_eq, List.append_nil]⟩
  | escaped =>
    rw [mode] at finished
    cases finished
    exact ⟨['\\'], [], by simp [endWord, Reader.push, opened.word]⟩
  | quoted | quotedEscape | single =>
    rw [mode] at finished
    cases finished
  | comment => exact absurd mode opened.mode

theorem reads_of_open (opened : r.Open w) (ran : r.run x = .ok next)
    (finished : next.finish = .ok tokens) :
    ∃ v more, tokens = r.tokens ++ .word (w ++ v) :: more := by
  rcases run_of_open opened ran with ⟨v, kept⟩ | ⟨v, more, ended, -⟩
  · obtain ⟨last, more, tokens_eq⟩ := finish_of_open kept.still finished
    exact ⟨v ++ last, more, by rw [tokens_eq, kept.tokens, List.append_assoc]⟩
  · obtain ⟨later, tokens_eq⟩ := prefix_finish finished
    exact ⟨v, more ++ later, by simp [← tokens_eq, ended]⟩

end Open

end Reader

section Verbatim

variable {c : Char} {x : Text}

/-- Between double quotes these characters stand for themselves; the flag tells that a backslash
stands in front. -/
def Untouched : Bool → Text → Prop
  | escaped, [] => escaped = false
  | escaped, c :: rest =>
    (c ≠ '"' ∧ c ≠ '$' ∧ c ≠ '`') ∧ (escaped = true → c ≠ '\\' ∧ c ≠ '\n') ∧
      Untouched (c = '\\') rest

/-- A text in which every character stands for itself between double quotes. A backslash in front
of the closing quote would take away its meaning. -/
structure Verbatim (x : Text) : Prop where
  plain : ∀ c ∈ x, c ≠ '"' ∧ c ≠ '$' ∧ c ≠ '`'
  backslashes : x.IsChain fun c d => c = '\\' → d ≠ '\\' ∧ d ≠ '\n'
  last : x.getLast? ≠ some '\\'

theorem verbatim_cons : Verbatim (c :: x) ↔
    (c ≠ '"' ∧ c ≠ '$' ∧ c ≠ '`') ∧ Verbatim x ∧
      (c = '\\' → ∃ d rest, x = d :: rest ∧ d ≠ '\\' ∧ d ≠ '\n') := by
  cases x with
  | nil =>
    constructor
    · intro whole
      exact ⟨whole.plain c List.mem_cons_self, ⟨nofun, .nil, nofun⟩,
        fun backslash => absurd (congrArg some backslash) whole.last⟩
    · rintro ⟨plain, -, behind⟩
      refine ⟨by simpa using plain, .singleton c, fun last => ?_⟩
      obtain ⟨_, _, impossible, -⟩ := behind (Option.some.inj last)
      cases impossible
  | cons d rest =>
    constructor
    · intro whole
      obtain ⟨next, later⟩ := List.isChain_cons_cons.mp whole.backslashes
      refine ⟨whole.plain c List.mem_cons_self, ⟨?_, later, ?_⟩, fun backslash => ?_⟩
      · exact fun e member => whole.plain e (List.mem_cons_of_mem c member)
      · simpa using whole.last
      · exact ⟨d, rest, rfl, next backslash⟩
    · rintro ⟨plain, later, behind⟩
      refine ⟨?_, List.isChain_cons_cons.mpr ⟨fun backslash => ?_, later.backslashes⟩, ?_⟩
      · intro e member
        rcases List.mem_cons.mp member with rfl | member
        · exact plain
        · exact later.plain e member
      · obtain ⟨_, _, same, next⟩ := behind backslash
        obtain ⟨rfl, -⟩ := List.cons.inj same
        exact next
      · simpa using later.last

theorem untouched_iff {escaped : Bool} :
    Untouched escaped x ↔ Verbatim x ∧
      (escaped = true → ∃ d rest, x = d :: rest ∧ d ≠ '\\' ∧ d ≠ '\n') := by
  induction x generalizing escaped with
  | nil =>
    rw [Untouched]
    constructor
    · rintro rfl
      exact ⟨⟨nofun, .nil, nofun⟩, nofun⟩
    · rintro ⟨-, behind⟩
      cases escaped with
      | false => rfl
      | true =>
        obtain ⟨_, _, impossible, -⟩ := behind rfl
        cases impossible
  | cons c rest ih =>
    have first : (∃ d tail, c :: rest = d :: tail ∧ d ≠ '\\' ∧ d ≠ '\n') ↔ c ≠ '\\' ∧ c ≠ '\n' := by
      constructor
      · rintro ⟨_, _, same, next⟩
        obtain ⟨rfl, -⟩ := List.cons.inj same
        exact next
      · exact fun next => ⟨c, rest, rfl, next⟩
    rw [Untouched, ih, verbatim_cons, first, decide_eq_true_eq]
    tauto

end Verbatim

namespace Reader

variable {next : Reader} {w x : Text} {c : Char}

section Quoted

/-- The mode between double quotes. -/
def quotedMode (escaped : Bool) : Mode := if escaped then .quotedEscape else .quoted

/-- The reader between double quotes, in front of a word's next character. -/
def inQuotes (before : List Token) (w : Text) (escaped : Bool) : Reader :=
  ⟨before, some ⟨w, true⟩, quotedMode escaped⟩

variable {before : List Token} {escaped : Bool}

theorem open_inQuotes : (inQuotes before w escaped).Open w where
  word := rfl
  mode := by cases escaped <;> exact nofun

theorem run_untouched (untouched : Untouched escaped x) :
    (inQuotes before w escaped).run x =
      .ok (inQuotes before (w ++ (if escaped then '\\' :: x else x)) false) := by
  induction x generalizing w escaped with
  | nil =>
    cases (untouched : escaped = false)
    simp
  | cons c rest ih =>
    obtain ⟨plain, behind, untouched⟩ := untouched
    rw [run_cons]
    cases escaped with
    | false =>
      rcases eq_or_ne c '\\' with rfl | other
      · exact ⟨inQuotes before w true, rfl, by simpa using ih untouched⟩
      · refine ⟨inQuotes before (w ++ [c]) false, ?_, ?_⟩
        · simp [step, inQuotes, quotedMode, plain, other, push]
        · simpa [other] using @ih (w ++ [c]) _ untouched
    | true =>
      have regular := behind rfl
      refine ⟨inQuotes before (w ++ ['\\', c]) false, ?_, ?_⟩
      · simp [step, inQuotes, quotedMode, plain, regular, push, isEscapable]
      · simpa [regular.1] using @ih (w ++ ['\\', c]) _ untouched

theorem run_verbatim (whole : Verbatim x) :
    (inQuotes before [] false).run x = .ok (inQuotes before x false) :=
  run_untouched (untouched_iff.mpr ⟨whole, nofun⟩)

/-- Until the word is closed it only grows, by no more than what is read. -/
theorem grows {middle : Reader} {v : Text} (opened : middle.Open w)
    (tokens : middle.tokens = before) (ran : middle.run x = .ok (inQuotes before v false)) :
    ∃ added, v = w ++ added ∧ added.length ≤ x.length + debt middle.mode := by
  rcases run_of_open opened ran with ⟨added, kept⟩ | ⟨added, more, ended, -⟩
  · have same := kept.still.word
    simp only [inQuotes, Option.some.injEq, Word.mk.injEq, and_true] at same
    exact ⟨added, same, Nat.le_of_add_right_le kept.length⟩
  · exact absurd (congrArg List.length ended) (by simp [inQuotes, tokens])

/-- A step between double quotes loses something, or the character stands for itself. -/
theorem step_inQuotes {middle : Reader} (stepped : (inQuotes before w escaped).step c = .ok middle) :
    ∃ first mode, middle = ⟨before, some ⟨w ++ first, true⟩, mode⟩ ∧ mode ≠ .comment ∧
      (first.length + debt mode < 1 + debt (quotedMode escaped) ∨
        (first.length + debt mode = 1 + debt (quotedMode escaped) ∧
          mode = quotedMode (c = '\\') ∧ (c ≠ '"' ∧ c ≠ '$' ∧ c ≠ '`') ∧
          (escaped = true → c ≠ '\\' ∧ c ≠ '\n'))) := by
  cases escaped with
  | false =>
    simp only [step, inQuotes, quotedMode, Bool.false_eq_true, if_false] at stepped
    split_ifs at stepped with double backslash expansion
    · -- the quotes are closed
      exact ⟨[], .plain, by simpa using stepped.symm, nofun, .inl (by decide)⟩
    · refine ⟨[], .quotedEscape, by simpa using stepped.symm, nofun, .inr ⟨rfl, ?_, ?_, nofun⟩⟩
      · simp [backslash, quotedMode]
      · rw [backslash]
        decide
    · simp only [Bool.or_eq_true, decide_eq_true_eq, not_or] at expansion
      refine ⟨[c], .quoted, by simpa [push] using stepped.symm, nofun, .inr ⟨rfl, ?_, ?_, nofun⟩⟩
      · simp [backslash, quotedMode]
      · exact ⟨double, expansion⟩
  | true =>
    simp only [step, inQuotes, quotedMode, if_true] at stepped
    split_ifs at stepped with newline escapable
    · exact ⟨[], .quoted, by simpa using stepped.symm, nofun, .inl (by decide)⟩
    · refine ⟨[c], .quoted, by simpa [push] using stepped.symm, nofun, .inl ?_⟩
      simp [debt, quotedMode]
    · simp only [isEscapable, List.mem_cons, List.not_mem_nil, or_false, decide_eq_true_eq,
        not_or] at escapable
      obtain ⟨dollar, backquote, double, backslash⟩ := escapable
      refine ⟨['\\', c], .quoted, by simpa [push] using stepped.symm, nofun, .inr ⟨?_, ?_, ?_, ?_⟩⟩
      · simp [debt, quotedMode]
      · simp [backslash, quotedMode]
      · exact ⟨double, dollar, backquote⟩
      · exact fun _ => ⟨backslash, newline⟩

/-- A text that is added to the word in full length is added unchanged. -/
theorem untouched_of_length {v : Text}
    (ran : (inQuotes before w escaped).run x = .ok (inQuotes before (w ++ v) false))
    (full : v.length = x.length + debt (quotedMode escaped)) : Untouched escaped x := by
  induction x generalizing w v escaped with
  | nil =>
    cases escaped with
    | false => exact rfl
    | true => simp [inQuotes, quotedMode] at ran
  | cons c rest ih =>
    obtain ⟨middle, stepped, ran⟩ := (run_cons _ c rest).mp ran
    obtain ⟨first, mode, rfl, notComment, outcome⟩ := step_inQuotes stepped
    obtain ⟨added, same, length⟩ := grows ⟨rfl, notComment⟩ rfl ran
    rw [List.append_assoc] at same
    obtain rfl := List.append_cancel_left same
    simp only [List.length_cons, List.length_append] at full length
    rcases outcome with lost | ⟨exact_, rfl, plain, behind⟩
    · omega
    · rw [← List.append_assoc] at ran
      exact ⟨plain, behind, ih ran (by omega)⟩

private theorem word_eq {v : Text} {after more : List Token}
    (same : before ++ .word v :: after = before ++ .word x :: more) : v = x := by
  simpa using (List.cons.inj (List.append_cancel_left same)).1

/-- When the next token is just what stands between the quotes, every character of it stands for
itself: what is lost inside could only be made up behind the closing quote, with its blank. -/
theorem verbatim_of_word {rest : Text} {more : List Token}
    (ran : (inQuotes before [] false).run (x ++ '"' :: ' ' :: rest) = .ok next)
    (finished : next.finish = .ok (before ++ .word x :: more)) : Verbatim x := by
  obtain ⟨middle, inside, ran⟩ := (run_append _ x _).mp ran
  rcases run_of_open open_inQuotes inside with ⟨v, kept⟩ | ⟨v, after, ended, shorter⟩
  · obtain ⟨tokens_eq, ⟨word, notComment⟩, blanks, length, escaped⟩ := kept
    obtain ⟨done, current, mode⟩ := middle
    obtain ⟨rfl, rfl⟩ : done = before ∧ current = some ⟨v, true⟩ := ⟨tokens_eq, word⟩
    -- the blank may not become a part of the word
    have noBlank (front : Text) (mode : Mode) (notComment : mode ≠ .comment)
        (ran : run ⟨done, some ⟨v ++ front ++ [' '], true⟩, mode⟩ rest = .ok next) : False := by
      obtain ⟨added, after, tokens⟩ := reads_of_open ⟨rfl, notComment⟩ ran finished
      have count := congrArg (List.count ' ') (word_eq tokens.symm)
      simp only [List.count_append, blanks, List.count_singleton_self] at count
      omega
    -- the word that ends at the blank
    have ends (text : Text) (ran : run ⟨done ++ [.word text], none, .plain⟩ rest = .ok next) :
        text = x := by
      obtain ⟨later, tokens⟩ := (prefix_run ran).trans (prefix_finish finished)
      simp only [List.append_assoc, List.cons_append, List.nil_append] at tokens
      exact word_eq tokens
    obtain ⟨_, first, ran⟩ := (run_cons _ _ _).mp ran
    obtain ⟨_, second, ran⟩ := (run_cons _ _ _).mp ran
    cases mode with
    | plain =>
      cases first
      cases second
      exact (noBlank [] .quoted nofun (by simpa [quote, push] using ran)).elim
    | escaped =>
      cases first
      cases second
      have same := ends (v ++ ['"']) ran
      have last := escaped rfl (by simp [← same])
      simp [← same] at last
    | quoted =>
      cases first
      cases second
      obtain rfl := ends v ran
      exact (untouched_iff.mp (untouched_of_length inside rfl)).1
    | quotedEscape =>
      cases first
      cases second
      exact (noBlank ['"'] .quoted nofun ran).elim
    | single =>
      cases first
      cases second
      exact (noBlank ['"'] .single nofun ran).elim
    | comment => exact absurd rfl notComment
  · obtain ⟨later, tokens⟩ := (prefix_run ran).trans (prefix_finish finished)
    rw [ended, List.append_assoc] at tokens
    rw [← word_eq tokens] at shorter
    exact absurd shorter (lt_irrefl _)

end Quoted

end Reader

theorem readCommand_eq_some_iff {line : Text} {command : SimpleCommand} :
    readCommand line = some command ↔
      ∃ tokens next, Reader.run {} line = .ok next ∧ next.finish = .ok tokens ∧
        simpleCommand? tokens = some command := by
  rw [readCommand, tokensOf]
  cases ran : Reader.run {} line with
  | error trouble => simp [bind, Except.bind, Except.toOption]
  | ok next => cases finished : next.finish <;> simp [bind, Except.bind, Except.toOption, finished]

/-- The words in front are the first words of the command. -/
theorem words_of_tokens {words : List Text} {v : Text} {more : List Token} {command : SimpleCommand}
    (read : simpleCommand? (words.map .word ++ .word v :: more) = some command) :
    ∃ later, command.words = words ++ v :: later := by
  induction words generalizing command with
  | nil =>
    rw [List.map_nil, List.nil_append, simpleCommand?, Option.map_eq_some_iff] at read
    obtain ⟨rest, -, rfl⟩ := read
    exact ⟨rest.words, rfl⟩
  | cons word words ih =>
    rw [List.map_cons, List.cons_append, simpleCommand?, Option.map_eq_some_iff] at read
    obtain ⟨rest, read, rfl⟩ := read
    obtain ⟨later, same⟩ := ih read
    exact ⟨later, by rw [same, List.cons_append]⟩

/-- When the command has what stands between the quotes for its next word, every character of it
stands for itself. -/
theorem verbatim_of_command {words later : List Text} {x rest : Text} {next : Reader}
    {tokens : List Token} {command : SimpleCommand}
    (ran : (Reader.inQuotes (words.map .word) [] false).run (x ++ '"' :: ' ' :: rest) = .ok next)
    (finished : next.finish = .ok tokens) (read : simpleCommand? tokens = some command)
    (meant : command.words = words ++ x :: later) : Verbatim x := by
  obtain ⟨v, more, rfl⟩ := Reader.reads_of_open Reader.open_inQuotes ran finished
  obtain ⟨others, same⟩ := words_of_tokens read
  rw [meant] at same
  obtain ⟨rfl, -⟩ := List.cons.inj (List.append_cancel_left same)
  exact Reader.verbatim_of_word ran finished

end ProtoJS.Strings.Shell
