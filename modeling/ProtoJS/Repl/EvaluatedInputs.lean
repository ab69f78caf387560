import ProtoJS.Repl.REPL

/-! # What the REPL evaluates

The loop evaluates an input of one line as it was typed, and also one of a line with an empty line
behind it. Of any other input it joins the first two lines into one, so the texts it evaluates have
fewer lines than were typed.
-/

namespace ProtoJS.Repl

open Strings

variable {exits : ℕ → Text → Bool} {s t : Session} {underWay block lines : List Text}
  {first second line : Text} {parts : List Segment}

/-- The lines of some text, with those to be evaluated marked. -/
def marked (lines : List Text) : List (Text × Bool) := (segments [] lines).flatMap Segment.marked

theorem map_fst_flags {flag : Text → Bool} :
    (block.map fun line => (line, flag line)).map Prod.fst = block := by
  rw [List.map_map]
  exact List.map_id _

theorem map_fst_marked_segments :
    ((segments underWay lines).flatMap Segment.marked).map Prod.fst = underWay ++ lines := by
  induction lines generalizing underWay with
  | nil =>
    rw [segments]
    split_ifs with none
    · rw [none]
      rfl
    · rw [List.flatMap_singleton, Segment.marked, map_fst_flags, List.append_nil]
  | cons line lines ih =>
    rw [segments]
    split_ifs with blank special
    · obtain ⟨rfl, rfl⟩ := blank
      simp [Segment.marked, ih]
    · obtain ⟨rfl, -⟩ := special
      simp [Segment.marked, ih]
    · rw [List.flatMap_cons, List.map_append, Segment.marked, map_fst_flags, ih, List.nil_append,
        List.append_assoc, List.singleton_append]
    · rw [ih, List.append_assoc, List.singleton_append]

/-- Marking leaves the lines as they are. -/
theorem map_fst_marked (lines : List Text) : (marked lines).map Prod.fst = lines :=
  map_fst_marked_segments

/-! ### Inputs that are evaluated as typed -/

theorem joined_eq_accumulated (plain : IsPlain block) : joined block = accumulated block := by
  obtain ⟨line, rfl | rfl⟩ := plain
  · simp [joined, accumulated]
  · simp [joined, accumulated]

theorem AsTyped.skips {unmarked : List Text} {others : List (Text × Bool)} {texts : List Text}
    (rest : AsTyped others texts) :
    AsTyped (unmarked.map (fun line => (line, false)) ++ others) texts := by
  induction unmarked with
  | nil => exact rest
  | cons line unmarked ih => exact .skip ih

theorem asTyped_of_plain (plain : ∀ block, .input block ∈ parts → IsPlain block) :
    AsTyped (parts.flatMap Segment.marked) (parts.filterMap Segment.evaluated) := by
  induction parts with
  | nil => exact .nil
  | cons part parts ih =>
    have rest := ih fun block member => plain block (List.mem_cons_of_mem _ member)
    rw [List.flatMap_cons]
    cases part with
    | blank => exact .skip rest
    | command line => exact .skip rest
    | unfinished block => exact rest.skips
    | input block =>
      have kept := plain block List.mem_cons_self
      have present : Segment.marked (.input block) ≠ [] := by
        obtain ⟨line, rfl | rfl⟩ := kept
        · exact List.cons_ne_nil _ _
        · exact List.cons_ne_nil _ _
      have names : (Segment.marked (.input block)).map Prod.fst = block := map_fst_flags
      rw [List.filterMap_cons_some (by rfl : Segment.evaluated (.input block) = _),
        ← joined_eq_accumulated kept]
      nth_rewrite 2 [← names]
      exact .run present rest

/-! ### Counting lines -/

/-- How many lines of a text are not empty. -/
def written (text : Text) : ℕ := (text.splitOn '\n').countP (· ≠ [])

theorem written_joined (clean : ∀ line ∈ block, '\n' ∉ line) (present : block ≠ []) :
    written (joined block) = block.countP (· ≠ []) := by
  rw [written, joined, List.splitOn_intercalate '\n' clean present]

theorem splitOn_flatMap (clean : ∀ line ∈ block, '\n' ∉ line) :
    (block.flatMap fun line => line ++ ['\n']).splitOn '\n' = block ++ [[]] := by
  induction block with
  | nil => exact List.splitOn_nil '\n'
  | cons line block ih =>
    rw [List.forall_mem_cons] at clean
    rw [List.flatMap_cons, List.append_assoc, List.singleton_append,
      List.splitOn_append_cons_self_of_not_mem clean.1, ih clean.2, List.cons_append]

/-- The first two lines become one. -/
theorem written_accumulated (clean : ∀ line ∈ first :: second :: block, '\n' ∉ line)
    (present : first ≠ []) :
    written (accumulated (first :: second :: block)) = 1 + block.countP (· ≠ []) := by
  rw [List.forall_mem_cons, List.forall_mem_cons] at clean
  have apart : '\n' ∉ first ++ second := by
    rw [List.mem_append, not_or]
    exact ⟨clean.1, clean.2.1⟩
  have text : accumulated (first :: second :: block) =
      (first ++ second) ++ '\n' :: block.flatMap fun line => line ++ ['\n'] := by
    simp [accumulated]
  rw [written, text, List.splitOn_append_cons_self_of_not_mem apart, splitOn_flatMap clean.2.2,
    List.countP_cons_of_pos (by simp [present]), List.countP_append, List.countP_singleton]
  simp [Nat.add_comm]

/-- An input ends with its first empty line. -/
structure IsInput (block : List Text) : Prop where
  present : block ≠ []
  clean : ∀ line ∈ block, '\n' ∉ line
  inner : ∀ line ∈ block.dropLast, line ≠ []

theorem isInput_of_mem_segments (clean : ∀ line ∈ lines, '\n' ∉ line)
    (before : ∀ line ∈ underWay, '\n' ∉ line ∧ line ≠ [])
    (member : .input block ∈ segments underWay lines) : IsInput block := by
  induction lines generalizing underWay with
  | nil =>
    rw [segments] at member
    split_ifs at member
    · exact absurd member List.not_mem_nil
    · rw [List.mem_singleton] at member
      cases member
  | cons line lines ih =>
    rw [List.forall_mem_cons] at clean
    have again (member : .input block ∈ segments [] lines) : IsInput block :=
      ih clean.2 (fun _ none => absurd none List.not_mem_nil) member
    rw [segments] at member
    split_ifs at member with blank special complete
    · exact again ((List.mem_cons.mp member).resolve_left (by simp))
    · exact again ((List.mem_cons.mp member).resolve_left (by simp))
    · rcases List.mem_cons.mp member with here | later
      · cases here
        refine ⟨by simp, ?_, ?_⟩
        · intro other among
          rcases List.mem_append.mp among with earlier | last
          · exact (before other earlier).1
          · rw [List.mem_singleton.mp last]
            exact clean.1
        · intro other among
          rw [List.dropLast_concat] at among
          exact (before other among).2
      · exact again later
    · apply ih clean.2 _ member
      rw [not_or] at complete
      intro other among
      rcases List.mem_append.mp among with earlier | last
      · exact before other earlier
      · rw [List.mem_singleton.mp last]
        exact ⟨clean.1, complete.2⟩

theorem countP_marked_input :
    (Segment.marked (.input block)).countP (·.2) = block.countP (· ≠ []) := by
  rw [Segment.marked, List.countP_map]
  rfl

theorem written_le (isInput : IsInput block) :
    written (accumulated block) ≤ block.countP (· ≠ []) ∧
      (¬IsPlain block → written (accumulated block) < block.countP (· ≠ [])) := by
  match block, isInput with
  | [], isInput => exact absurd rfl isInput.present
  | [line], isInput =>
    have plain : IsPlain [line] := ⟨line, .inl rfl⟩
    rw [← joined_eq_accumulated plain, written_joined isInput.clean isInput.present]
    exact ⟨le_rfl, fun other => absurd plain other⟩
  | first :: second :: block, isInput =>
    have present : first ≠ [] := isInput.inner first List.mem_cons_self
    rw [written_accumulated isInput.clean present, List.countP_cons_of_pos (by simp [present])]
    by_cases empty : second = []
    · have last : block = [] := by
        by_contra more
        apply isInput.inner second _ empty
        rw [List.dropLast_cons_of_ne_nil (List.cons_ne_nil _ _), List.dropLast_cons_of_ne_nil more]
        exact List.mem_cons_of_mem _ List.mem_cons_self
      subst empty last
      exact ⟨by simp, fun other => absurd ⟨first, .inr rfl⟩ other⟩
    · rw [List.countP_cons_of_pos (by simp [empty])]
      omega

/-- The marked lines of an input are those that are not empty. -/
theorem sum_written_le (inputs : ∀ block, .input block ∈ parts → IsInput block) :
    ((parts.filterMap Segment.evaluated).map written).sum ≤
        (parts.flatMap Segment.marked).countP (·.2) ∧
      ((∃ block, .input block ∈ parts ∧ ¬IsPlain block) →
        ((parts.filterMap Segment.evaluated).map written).sum <
          (parts.flatMap Segment.marked).countP (·.2)) := by
  induction parts with
  | nil => exact ⟨le_rfl, fun ⟨_, member, _⟩ => absurd member List.not_mem_nil⟩
  | cons part parts ih =>
    obtain ⟨le, lt⟩ := ih fun block member => inputs block (List.mem_cons_of_mem _ member)
    rw [List.flatMap_cons, List.countP_append]
    by_cases isInput : ∃ block, part = .input block
    · obtain ⟨block, rfl⟩ := isInput
      obtain ⟨most, fewer⟩ := written_le (inputs block List.mem_cons_self)
      rw [List.filterMap_cons_some (by rfl : Segment.evaluated (.input block) = _), List.map_cons,
        List.sum_cons, countP_marked_input]
      refine ⟨by omega, ?_⟩
      rintro ⟨other, member, notPlain⟩
      rcases List.mem_cons.mp member with here | later
      · cases here
        have strict := fewer notPlain
        omega
      · have strict := lt ⟨other, later, notPlain⟩
        omega
    · have skipped : part.evaluated = none := by
        cases part with
        | input block => exact absurd ⟨block, rfl⟩ isInput
        | blank => rfl
        | command line => rfl
        | unfinished block => rfl
      rw [List.filterMap_cons_none skipped]
      refine ⟨by omega, ?_⟩
      rintro ⟨other, member, notPlain⟩
      rcases List.mem_cons.mp member with here | later
      · exact absurd ⟨other, here.symm⟩ isInput
      · have strict := lt ⟨other, later, notPlain⟩
        omega

/-- Texts that are what was typed have as many lines as are marked. -/
theorem countP_le_of_asTyped {typed : List (Text × Bool)} {texts : List Text}
    (clean : ∀ line ∈ typed, '\n' ∉ line.1) (marks : ∀ line ∈ typed, line.2 = true → line.1 ≠ [])
    (asTyped : AsTyped typed texts) : typed.countP (·.2) ≤ (texts.map written).sum := by
  induction asTyped with
  | nil => exact le_rfl
  | skip _ ih =>
    rw [List.forall_mem_cons] at clean marks
    rw [List.countP_cons_of_neg (by simp)]
    exact ih clean.2 marks.2
  | @run block others texts present _ ih =>
    rw [List.forall_mem_append] at clean marks
    have lines : written (joined (block.map Prod.fst)) = block.countP (·.1 ≠ []) := by
      rw [written_joined _ (by simpa using present), List.countP_map]
      · rfl
      · intro line member
        obtain ⟨typed, among, rfl⟩ := List.mem_map.mp member
        exact clean.1 typed among
    have covered : block.countP (·.2) ≤ block.countP (·.1 ≠ []) := by
      apply List.countP_mono_left
      intro line member mark
      exact decide_eq_true (marks.1 line member mark)
    have rest := ih clean.2 marks.2
    rw [List.countP_append, List.map_cons, List.sum_cons, lines]
    omega

theorem ne_nil_of_marked {typed : Text × Bool}
    (member : typed ∈ parts.flatMap Segment.marked) (mark : typed.2 = true) : typed.1 ≠ [] := by
  obtain ⟨part, _, among⟩ := List.mem_flatMap.mp member
  cases part with
  | blank =>
    rw [Segment.marked, List.mem_singleton] at among
    simp [among] at mark
  | command line =>
    rw [Segment.marked, List.mem_singleton] at among
    simp [among] at mark
  | unfinished block =>
    obtain ⟨line, _, rfl⟩ := List.mem_map.mp among
    exact absurd mark Bool.false_ne_true
  | input block =>
    obtain ⟨line, _, rfl⟩ := List.mem_map.mp among
    exact of_decide_eq_true mark

theorem clean_of_run (run : (start exits).Run s lines t) : ∀ line ∈ lines, '\n' ∉ line := by
  induction lines generalizing s with
  | nil => exact fun _ none => absurd none List.not_mem_nil
  | cons line lines ih =>
    obtain ⟨enabled, rest⟩ := Machine.run_cons_iff.mp run
    exact List.forall_mem_cons.mpr ⟨enabled.2, ih rest⟩

theorem asTyped_iff (run : (start exits).Run (start exits).initial lines t) :
    AsTyped (marked lines) t.history ↔
      ∀ block, .input block ∈ segments [] lines → IsPlain block := by
  have history := history_of_run Session.At.start run
  change t.history = (segments [] lines).filterMap Segment.evaluated at history
  rw [history]
  constructor
  · intro asTyped
    by_contra notPlain
    push Not at notPlain
    have clean := clean_of_run run
    have inputs (block : List Text) (member : .input block ∈ segments [] lines) : IsInput block :=
      isInput_of_mem_segments clean (fun _ none => absurd none List.not_mem_nil) member
    have fewer := (sum_written_le inputs).2 notPlain
    apply not_lt_of_ge _ fewer
    apply countP_le_of_asTyped _ (fun _ member => ne_nil_of_marked member) asTyped
    intro line member
    apply clean
    rw [← map_fst_marked lines]
    exact List.mem_map_of_mem member
  · exact asTyped_of_plain

/-- In every run the texts that are evaluated are what was typed, if and only if every input that is
complete is a single line, or a line with an empty one behind it. -/
theorem evaluates_what_was_typed_iff (exits : ℕ → Text → Bool) (lines : List Text) (t : Session)
    (run : (start exits).Run (start exits).initial lines t) :
    AsTyped (marked lines) t.history ↔
      ∀ block, .input block ∈ segments [] lines → IsPlain block :=
  asTyped_iff run

/-- Evaluations that return. -/
def returning (_ : ℕ) (_ : Text) : Bool := false

/-- An open bracket, and an empty line after all. -/
def abandoned : List Text := ["f(".toList, []]

theorem evaluates_abandoned_iff :
    AsTyped (marked abandoned) [['f', '(', '\n']] ↔
      ∀ block, .input block ∈ segments [] abandoned → IsPlain block :=
  evaluates_what_was_typed_iff returning abandoned { history := [['f', '(', '\n']] }
    (.cons ⟨rfl, by decide⟩ (.cons ⟨rfl, by decide⟩ (.nil _)))

/-- A comment behind the bracket: the second line becomes part of it. -/
def commented : List Text := ["f(//".toList, "1)".toList]

theorem run_commented :
    (start returning).Run (start returning).initial commented
      { history := ["f(//1)\n".toList] } :=
  .cons ⟨rfl, by decide⟩ (.cons ⟨rfl, by decide⟩ (.nil _))

theorem not_evaluates_what_was_typed :
    ¬ ∀ (exits : ℕ → Text → Bool) (lines : List Text) (t : Session),
      (start exits).Run (start exits).initial lines t → AsTyped (marked lines) t.history := by
  intro all
  have plain := (asTyped_iff run_commented).mp (all returning commented _ run_commented)
  obtain ⟨line, same | same⟩ := plain commented (by decide)
  · exact absurd same (by simp [commented])
  · exact absurd same (by simp [commented])

end ProtoJS.Repl
