import ProtoJS.Repl.REPL

/-! # The REPL at the end of its input

Behind the last line `readLine` returns the empty string, whenever it is called. The loop takes it
for an empty line: it ends an input that is under way, and is passed over otherwise.
-/

namespace ProtoJS.Repl

open Strings

variable {exits : ℕ → Text → Bool} {s t : Session} {underWay lines more : List Text}

/-- What the first `n` calls of `readLine` return. -/
def readLines (lines : List Text) (n : ℕ) : List Text :=
  (List.range n).map fun i => lines.getD i []

/-- The loop comes to its end after finitely many turns. -/
def Terminates (exits : ℕ → Text → Bool) (lines : List Text) : Prop :=
  ∃ n t, (start exits).Run (start exits).initial (readLines lines n) t ∧ t.exited = true

/-- One of some parts leaves the process: a command, or the evaluation of an input, with `k` of
them before. -/
def Leaves (exits : ℕ → Text → Bool) (k : ℕ) : List Segment → Prop
  | [] => False
  | .command line :: parts => isExit line = true ∨ Leaves exits k parts
  | .input block :: parts => exits k (accumulated block) = true ∨ Leaves exits (k + 1) parts
  | .blank :: parts => Leaves exits k parts
  | .unfinished _ :: parts => Leaves exits k parts

/-- A run that exits has a first turn, and exits in it or behind it. -/
theorem exists_run_cons_iff {line : Text} (running : s.exited = false) (clean : '\n' ∉ line) :
    (∃ front t, front <+: line :: lines ∧ (start exits).Run s front t ∧ t.exited = true) ↔
      (s.turn exits line).exited = true ∨ (s.turn exits line).exited = false ∧
        ∃ front t, front <+: lines ∧ (start exits).Run (s.turn exits line) front t ∧
          t.exited = true := by
  constructor
  · rintro ⟨front, t, within, run, exited⟩
    rcases List.prefix_cons_iff.mp within with rfl | ⟨rest, rfl, behind⟩
    · rw [Machine.run_nil_iff.mp run, running] at exited
      exact absurd exited Bool.false_ne_true
    · have later := (Machine.run_cons_iff.mp run).2
      cases now : (s.turn exits line).exited with
      | true => exact .inl rfl
      | false => exact .inr ⟨rfl, rest, t, behind, later, exited⟩
  · have enabled : (start exits).Enabled s line := ⟨running, clean⟩
    rintro (now | ⟨-, front, t, within, run, exited⟩)
    · refine ⟨[line], _, ?_, .single enabled, now⟩
      exact List.cons_prefix_cons.mpr ⟨rfl, List.nil_prefix⟩
    · exact ⟨line :: front, t, List.cons_prefix_cons.mpr ⟨rfl, within⟩, .cons enabled run, exited⟩

/-- The loop exits within some lines if and only if one of their parts leaves the process. -/
theorem exists_run_exited_iff (at_ : s.At underWay) (running : s.exited = false)
    (clean : ∀ line ∈ lines, '\n' ∉ line) :
    (∃ front t, front <+: lines ∧ (start exits).Run s front t ∧ t.exited = true) ↔
      Leaves exits s.history.length (segments underWay lines) := by
  induction lines generalizing s underWay with
  | nil =>
    have none : ¬Leaves exits s.history.length (segments underWay []) := by
      rw [segments]
      split_ifs <;> simp [Leaves]
    refine iff_of_false ?_ none
    rintro ⟨front, t, within, run, exited⟩
    rw [List.prefix_nil.mp within] at run
    rw [Machine.run_nil_iff.mp run, running] at exited
    exact Bool.false_ne_true exited
  | cons line lines ih =>
    rw [List.forall_mem_cons] at clean
    rw [exists_run_cons_iff running clean.1]
    cases at_.step exits line lines with
    | blank unchanged notUnderWay _ parts =>
      subst notUnderWay
      rw [unchanged, running, parts, Leaves, ih at_ running clean.2]
      simp
    | command handled notUnderWay parts =>
      subst notUnderWay
      rw [parts, Leaves]
      cases exit : isExit line with
      | true => simp [handled, exit]
      | false =>
        have same : s.turn exits line = s := by rw [handled, exit, ← running]
        rw [same, running, ih at_ running clean.2]
        simp
    | input evaluated parts =>
      have fresh : (s.turn exits line).At [] := by
        rw [evaluated]
        exact ⟨rfl, rfl⟩
      have one : (s.turn exits line).history.length = s.history.length + 1 := by
        rw [evaluated, List.length_append, List.length_singleton]
      have exit : (s.turn exits line).exited =
          exits s.history.length (accumulated (underWay ++ [line])) := by rw [evaluated]
      rw [parts, Leaves, ← exit, ← one]
      cases now : (s.turn exits line).exited with
      | true => simp
      | false =>
        rw [ih fresh now clean.2]
        simp
    | more goesOn history exited _ parts =>
      rw [exited, running, parts, ← history, ih goesOn (exited.trans running) clean.2]
      simp

/-! ### Behind the last line -/

/-- An empty line leaves nothing under way. -/
theorem segments_append :
    segments underWay (lines ++ [] :: more) =
      segments underWay (lines ++ [[]]) ++ segments [] more := by
  induction lines generalizing underWay with
  | nil =>
    rw [List.nil_append, List.nil_append, segments, segments]
    split_ifs <;> simp_all [segments]
  | cons line lines ih =>
    rw [List.cons_append, List.cons_append, segments, segments]
    split_ifs <;> simp [ih]

theorem leaves_append_blanks {parts : List Segment} {k n : ℕ} :
    Leaves exits k (parts ++ List.replicate n .blank) ↔ Leaves exits k parts := by
  induction parts generalizing k with
  | nil =>
    induction n with
    | zero => exact Iff.rfl
    | succ n ih => exact ih
  | cons part parts ih =>
    cases part with
    | blank => exact ih
    | unfinished block => exact ih
    | command line => exact or_congr_right ih
    | input block => exact or_congr_right ih

theorem segments_replicate {n : ℕ} :
    segments [] (List.replicate n []) = List.replicate n .blank := by
  induction n with
  | zero => rfl
  | succ n ih => rw [List.replicate_succ, segments, if_pos ⟨rfl, rfl⟩, ih, List.replicate_succ]

theorem readLines_eq (n : ℕ) :
    readLines lines (lines.length + n) = lines ++ List.replicate n [] := by
  apply List.ext_getElem
  · simp [readLines]
  · intro i _ inside
    simp only [readLines, List.getElem_map, List.getElem_range]
    rcases lt_or_ge i lines.length with within | behind
    · rw [List.getElem_append_left within, List.getD_eq_getElem _ _ within]
    · rw [List.getElem_append_right behind, List.getElem_replicate,
        List.getD_eq_default _ _ behind]

theorem take_readLines {n m : ℕ} (le : n ≤ m) :
    (readLines lines m).take n = readLines lines n := by
  rw [readLines, ← List.map_take, List.take_range, Nat.min_eq_left le, readLines]

/-- The loop terminates if and only if it does within the lines and one empty line more. -/
theorem terminates_iff (clean : ∀ line ∈ lines, '\n' ∉ line) :
    Terminates exits lines ↔ Leaves exits 0 (segments [] (lines ++ [[]])) := by
  have blank {n : ℕ} : ∀ line ∈ lines ++ List.replicate n [], '\n' ∉ line := by
    intro line member
    rcases List.mem_append.mp member with typed | behind
    · exact clean line typed
    · rw [List.eq_of_mem_replicate behind]
      exact List.not_mem_nil
  have exit (n : ℕ) :
      (∃ front t, front <+: lines ++ List.replicate n [] ∧
        (start exits).Run (start exits).initial front t ∧ t.exited = true) ↔
        Leaves exits 0 (segments [] (lines ++ List.replicate n [])) :=
    exists_run_exited_iff Session.At.start rfl blank
  constructor
  · rintro ⟨n, t, run, exited⟩
    have within : readLines lines n <+: lines ++ List.replicate (n + 1) [] := by
      have enough : n ≤ lines.length + (n + 1) := by omega
      rw [← readLines_eq, ← take_readLines enough]
      exact List.take_prefix _ _
    have leaves := (exit (n + 1)).mp ⟨_, t, within, run, exited⟩
    rw [List.replicate_succ, segments_append, segments_replicate] at leaves
    exact leaves_append_blanks.mp leaves
  · intro leaves
    obtain ⟨front, t, within, run, exited⟩ := (exit 1).mpr leaves
    rw [← readLines_eq] at within
    have shorter := within.length_le
    rw [readLines, List.length_map, List.length_range] at shorter
    rw [List.prefix_iff_eq_take.mp within, take_readLines shorter] at run
    exact ⟨front.length, t, run, exited⟩

/-- The loop terminates at the end of its input, if and only if an `.exit` or `.quit` at the start
of an input or an evaluation exits before. -/
theorem terminates_at_end_of_input_iff (exits : ℕ → Text → Bool) (lines : List Text)
    (clean : ∀ line ∈ lines, '\n' ∉ line) :
    Terminates exits lines ↔ Leaves exits 0 (segments [] (lines ++ [[]])) :=
  terminates_iff clean

theorem terminates_exit : Terminates (fun _ _ => false) [['1'], ".exit".toList] :=
  (terminates_at_end_of_input_iff _ _ (by decide)).mpr
    (.inr (.inl (by decide) : Leaves _ 1 [.command ".exit".toList, .blank]))

/-- Without any line the loop asks for lines forever. -/
theorem not_terminates_empty :
    ¬ ∀ (exits : ℕ → Text → Bool) (lines : List Text), (∀ line ∈ lines, '\n' ∉ line) →
      Terminates exits lines := by
  intro all
  exact (terminates_iff (by decide)).mp (all (fun _ _ => false) [] (by decide))

end ProtoJS.Repl
