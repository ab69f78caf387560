import ProtoJS.Machine.Run
import ProtoJS.Repl.CompleteInput

/-! # The loop of the REPL

`start` reads line by line, adds each line to the input that is under way, and evaluates the input
once it is complete or the line is empty. It puts a line end behind every line of an input but the
first one.
-/

namespace ProtoJS.Repl

open Strings

def isSpecialCommand (input : Text) : Bool := input.head? = some '.'

/-- The commands at which the process exits. -/
def isExit (command : Text) : Bool := command = ".exit".toList || command = ".quit".toList

/-- The variables of the loop of `start`, and whether the process has exited. -/
structure Session where
  history : List Text := []
  input : Text := []
  lineCount : ℕ := 0
  exited : Bool := false
deriving DecidableEq, Repr

/-- One turn of the loop, with the line that `readLine` returns. `exits` tells of each evaluation
whether the process exits in it. -/
def Session.turn (exits : ℕ → Text → Bool) (s : Session) (line : Text) : Session :=
  if line = [] ∧ s.lineCount = 0 then s
  else if s.lineCount = 0 ∧ isSpecialCommand line then { s with exited := isExit line }
  else
    let input := s.input ++ line ++ if 0 < s.lineCount then ['\n'] else []
    if isCompleteInput input ∨ line = [] then
      if input = [] then { s with input := [], lineCount := 0 }
      else
        { history := s.history ++ [input]
          input := []
          lineCount := 0
          exited := exits s.history.length input }
    else { s with input, lineCount := s.lineCount + 1 }

/-- The loop goes on with any line until the process exits. -/
def start (exits : ℕ → Text → Bool) : Machine Session Text where
  initial := {}
  Enabled s line := s.exited = false ∧ '\n' ∉ line
  next := Session.turn exits

/-! ### What was typed -/

/-- A part of what was typed. -/
inductive Segment
  | blank
  | command (line : Text)
  | input (block : List Text)
  | unfinished (block : List Text)
deriving DecidableEq, Repr

def joined (block : List Text) : Text := ['\n'].intercalate block

/-- The parts that some lines consist of, behind the lines of an input that is under way. -/
def segments (underWay : List Text) : List Text → List Segment
  | [] => if underWay = [] then [] else [.unfinished underWay]
  | line :: lines =>
    if line = [] ∧ underWay = [] then .blank :: segments [] lines
    else if underWay = [] ∧ isSpecialCommand line then .command line :: segments [] lines
    else if isCompleteInput (joined (underWay ++ [line])) ∨ line = [] then
      .input (underWay ++ [line]) :: segments [] lines
    else segments (underWay ++ [line]) lines

/-- The lines of a part, and which of them are to be evaluated. -/
def Segment.marked : Segment → List (Text × Bool)
  | .blank => [([], false)]
  | .command line => [(line, false)]
  | .input block => block.map fun line => (line, line ≠ [])
  | .unfinished block => block.map fun line => (line, false)

/-- Some texts are what was typed: each is a run of lines with one line end between consecutive
lines, and each line that is to be evaluated is in one of these runs. -/
inductive AsTyped : List (Text × Bool) → List Text → Prop
  | nil : AsTyped [] []
  | skip {line : Text} {lines : List (Text × Bool)} {texts : List Text}
      (rest : AsTyped lines texts) : AsTyped ((line, false) :: lines) texts
  | run {block lines : List (Text × Bool)} {texts : List Text} (present : block ≠ [])
      (rest : AsTyped lines texts) :
      AsTyped (block ++ lines) (joined (block.map Prod.fst) :: texts)

/-- A single line, or a line with an empty one behind it. -/
def IsPlain (block : List Text) : Prop := ∃ line, block = [line] ∨ block = [line, []]

/-! ### The parts and the loop -/

/-- What the loop makes of the lines of an input. -/
def accumulated : List Text → Text
  | [] => []
  | first :: others => first ++ others.flatMap fun line => line ++ ['\n']

/-- What is evaluated of a part. -/
def Segment.evaluated : Segment → Option Text
  | .input block => some (accumulated block)
  | _ => none

/-- The loop is where it is after the lines of an input that is under way. -/
structure Session.At (s : Session) (underWay : List Text) : Prop where
  input : s.input = accumulated underWay
  lineCount : s.lineCount = underWay.length

namespace Counters

variable {s : Counters} {c : Char}

theorem scan_newline (quote : s.stringChar ≠ '\n') : s.scan '\n' = s := by
  simp [scan, Ne.symm quote]

theorem stringChar_scan (quote : s.stringChar ≠ '\n') : (s.scan c).stringChar ≠ '\n' := by
  unfold scan
  split_ifs with opens
  · rcases opens.2 with rfl | rfl
    · exact (by decide : '"' ≠ '\n')
    · exact (by decide : '\'' ≠ '\n')
  all_goals exact quote

/-- The scan does not see line ends. -/
theorem foldl_scan_filter {input : Text} (quote : s.stringChar ≠ '\n') :
    (input.filter (· ≠ '\n')).foldl scan s = input.foldl scan s := by
  induction input generalizing s with
  | nil => rfl
  | cons c input ih =>
    by_cases newline : c = '\n'
    · rw [newline, List.filter_cons_of_neg (by simp), List.foldl_cons, scan_newline quote, ih quote]
    · rw [List.filter_cons_of_pos (by simpa using newline), List.foldl_cons, List.foldl_cons,
        ih (stringChar_scan quote)]

end Counters

theorem isCompleteInput_congr {input other : Text}
    (same : input.filter (· ≠ '\n') = other.filter (· ≠ '\n')) :
    isCompleteInput input = isCompleteInput other := by
  have scanned (text : Text) : (text.filter (· ≠ '\n')).foldl Counters.scan {} =
      text.foldl Counters.scan {} := Counters.foldl_scan_filter (by decide)
  rw [isCompleteInput, isCompleteInput, ← scanned input, same, scanned]

variable {exits : ℕ → Text → Bool} {s t : Session} {underWay block lines : List Text} {line : Text}

theorem filter_joined :
    (joined block).filter (· ≠ '\n') = block.flatten.filter (· ≠ '\n') := by
  induction block with
  | nil => rfl
  | cons line block ih =>
    cases block with
    | nil => simp [joined]
    | cons next block =>
      rw [joined, List.intercalate_cons_cons, List.filter_append, List.filter_append, ← joined, ih]
      simp

theorem filter_accumulated :
    (accumulated block).filter (· ≠ '\n') = block.flatten.filter (· ≠ '\n') := by
  cases block with
  | nil => rfl
  | cons first others =>
    rw [accumulated, List.filter_append, List.flatten_cons, List.filter_append]
    congr 1
    induction others with
    | nil => rfl
    | cons line others ih =>
      rw [List.flatMap_cons, List.filter_append, List.filter_append, ih, List.flatten_cons,
        List.filter_append]
      simp

theorem isCompleteInput_accumulated :
    isCompleteInput (accumulated block) = isCompleteInput (joined block) :=
  isCompleteInput_congr (filter_accumulated.trans filter_joined.symm)

theorem accumulated_append :
    accumulated (underWay ++ [line]) =
      accumulated underWay ++ line ++ if 0 < underWay.length then ['\n'] else [] := by
  cases underWay with
  | nil => simp [accumulated]
  | cons first others => simp [accumulated]

theorem accumulated_ne_nil (present : ¬(line = [] ∧ underWay = [])) :
    accumulated (underWay ++ [line]) ≠ [] := by
  intro empty
  rw [accumulated_append, List.append_eq_nil_iff, List.append_eq_nil_iff] at empty
  apply present
  refine ⟨empty.1.2, ?_⟩
  cases underWay with
  | nil => rfl
  | cons first others => simp at empty

/-- The parts of some lines by the first of them, and what the loop does with it. -/
inductive Step (exits : ℕ → Text → Bool) (s : Session) (underWay : List Text) (line : Text)
    (lines : List Text) : Prop
  | blank (unchanged : s.turn exits line = s) (notUnderWay : underWay = []) (empty : line = [])
      (parts : segments underWay (line :: lines) = .blank :: segments [] lines)
  | command (handled : s.turn exits line = { s with exited := isExit line })
      (notUnderWay : underWay = [])
      (parts : segments underWay (line :: lines) = .command line :: segments [] lines)
  | input
      (evaluated : s.turn exits line =
        { history := s.history ++ [accumulated (underWay ++ [line])]
          exited := exits s.history.length (accumulated (underWay ++ [line])) })
      (parts : segments underWay (line :: lines) =
        .input (underWay ++ [line]) :: segments [] lines)
  | more (goesOn : (s.turn exits line).At (underWay ++ [line]))
      (history : (s.turn exits line).history = s.history)
      (exited : (s.turn exits line).exited = s.exited) (present : line ≠ [])
      (parts : segments underWay (line :: lines) = segments (underWay ++ [line]) lines)

theorem Session.At.step (at_ : s.At underWay) (exits : ℕ → Text → Bool) (line : Text)
    (lines : List Text) : Step exits s underWay line lines := by
  have start : s.lineCount = 0 ↔ underWay = [] := by
    rw [at_.lineCount, List.length_eq_zero_iff]
  have input : s.input ++ line ++ (if 0 < s.lineCount then ['\n'] else []) =
      accumulated (underWay ++ [line]) := by
    rw [accumulated_append, at_.input, at_.lineCount]
  by_cases blank : line = [] ∧ underWay = []
  · apply Step.blank _ blank.2 blank.1
    · rw [segments, if_pos blank]
    · rw [Session.turn, if_pos ⟨blank.1, start.mpr blank.2⟩]
  have notBlank : ¬(line = [] ∧ s.lineCount = 0) := by rwa [start]
  by_cases special : underWay = [] ∧ isSpecialCommand line
  · apply Step.command _ special.1
    · rw [segments, if_neg blank, if_pos special]
    · rw [Session.turn, if_neg notBlank, if_pos ⟨start.mpr special.1, special.2⟩]
  have notSpecial : ¬(s.lineCount = 0 ∧ isSpecialCommand line) := by rwa [start]
  by_cases complete : isCompleteInput (joined (underWay ++ [line])) ∨ line = []
  · apply Step.input
    · rw [Session.turn, if_neg notBlank, if_neg notSpecial]
      simp only [input, isCompleteInput_accumulated]
      rw [if_pos complete, if_neg (accumulated_ne_nil blank)]
    · rw [segments, if_neg blank, if_neg special, if_pos complete]
  · have goesOn : s.turn exits line = { s with
        input := accumulated (underWay ++ [line]), lineCount := s.lineCount + 1 } := by
      rw [Session.turn, if_neg notBlank, if_neg notSpecial]
      simp only [input, isCompleteInput_accumulated]
      rw [if_neg complete]
    rw [not_or] at complete
    apply Step.more _ _ _ complete.2
    · rw [segments, if_neg blank, if_neg special, if_neg (not_or.mpr complete)]
    · rw [goesOn]
      exact ⟨rfl, by rw [at_.lineCount, List.length_append, List.length_singleton]⟩
    · rw [goesOn]
    · rw [goesOn]

theorem Session.At.start : (Repl.start exits).initial.At [] := ⟨rfl, rfl⟩

/-- What is evaluated are the inputs among the parts of what was typed. -/
theorem history_of_run (at_ : s.At underWay) (run : (start exits).Run s lines t) :
    t.history = s.history ++ (segments underWay lines).filterMap Segment.evaluated := by
  induction lines generalizing s underWay with
  | nil =>
    rw [Machine.run_nil_iff.mp run, segments]
    split_ifs
    · rw [List.filterMap_nil, List.append_nil]
    · exact (List.append_nil _).symm
  | cons line lines ih =>
    obtain ⟨-, rest⟩ := Machine.run_cons_iff.mp run
    change (start exits).Run (s.turn exits line) lines t at rest
    cases at_.step exits line lines with
    | blank unchanged notUnderWay _ parts =>
      rw [unchanged] at rest
      rw [parts, ih (notUnderWay ▸ at_) rest]
      rfl
    | command handled notUnderWay parts =>
      subst notUnderWay
      rw [handled] at rest
      rw [parts, ih (s := { s with exited := isExit line }) ⟨at_.input, at_.lineCount⟩ rest]
      rfl
    | input evaluated parts =>
      have fresh : (s.turn exits line).At [] := by
        rw [evaluated]
        exact ⟨rfl, rfl⟩
      rw [parts, ih fresh rest, evaluated, List.append_assoc]
      rfl
    | more goesOn history _ _ parts => rw [parts, ih goesOn rest, history]

end ProtoJS.Repl
