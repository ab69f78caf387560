import ProtoJS.Stores.LockDiscipline
import ProtoJS.Strings.Lines

/-! # The series of a metric

A series is a name with labels. Its key has the values of the labels, but not what they are the
values of, and nothing in a name or a value is escaped: some different series have one key, and
then they are one counter.
-/

namespace ProtoJS.Metrics

open Strings

/-- A name with labels whose values are strings; a null pointer has no labels. -/
structure Series (δ η : Type) where
  name : String
  labels : Labels δ η
  textual : ∀ labels' ∈ labels, ∀ entry ∈ labels'.entries, ∃ text, entry.2 = .string text

namespace Series

variable {δ η : Type}

def key (s : Series δ η) : List Char := (makeKey s.name s.labels).toList

/-- The values, in the order of the iteration. -/
def values (s : Series δ η) : List (List Char) :=
  s.labels.elim [] fun labels => labels.entries.map fun entry => entry.2.labelText.toList

/-- What stands between the commas of the values. -/
def pieces (s : Series δ η) : List (List Char) := s.values.flatMap (·.splitOn ',')

/-- Between the commas of the text is what is between those of the values. -/
def SpelledBy (s : Series δ η) (text : List Char) : Prop := text.splitOn ',' = s.pieces

/-- The name of the first series is that of the second, and goes on with values of its labels. -/
def Extends (a b : Series δ η) : Prop :=
  b.values ≠ [] ∧ ∃ more, a.name.toList = b.name.toList ++ '{' :: more ∧
    if a.values = [] then ∃ text, more = text ++ ['}'] ∧ b.SpelledBy text
    else ∃ text, a.SpelledBy text ∧ b.SpelledBy (more ++ '{' :: text)

/-- Two series with labels have the same name and between commas the same values, or the name of
one goes on where the other one has its labels. -/
def Confusable (a b : Series δ η) : Prop :=
  (a.values ≠ [] ∧ b.values ≠ [] ∧ a.name = b.name ∧ a.pieces = b.pieces) ∨
    Extends a b ∨ Extends b a

section Keys

variable {a b : Series δ η} {text : List Char}

theorem key_eq (s : Series δ η) : s.key =
    if s.values = [] then s.name.toList
    else s.name.toList ++ '{' :: ([','].intercalate s.values ++ ['}']) := by
  rcases s with ⟨name, _ | labels, textual⟩
  · rfl
  · simp only [key, makeKey, values, Option.elim_some, List.length_eq_zero_iff,
      List.map_eq_nil_iff]
    split
    · rfl
    · simp only [String.toList_append, String.toList_intercalate, List.map_map, List.append_assoc]
      rfl

theorem spelledBy_iff {s : Series δ η} (labelled : s.values ≠ []) :
    s.SpelledBy text ↔ text = [','].intercalate s.values := by
  rw [SpelledBy, pieces, ← splitOn_intercalate labelled]
  constructor
  · intro same
    have joined := congrArg [','].intercalate same
    rwa [List.intercalate_splitOn, List.intercalate_splitOn] at joined
  · rintro rfl
    rfl

theorem extends_iff (unlabelled : a.values = []) (labelled : b.values ≠ []) :
    a.Extends b ↔ a.key = b.key := by
  simp only [Extends, key_eq, unlabelled, labelled, if_true, if_false, ne_eq, not_false_eq_true,
    true_and, spelledBy_iff labelled]
  constructor
  · rintro ⟨more, name, text, rfl, rfl⟩
    exact name
  · intro same
    exact ⟨_, same, _, rfl, rfl⟩

theorem confusable_iff_of_labelled (labelledA : a.values ≠ []) (labelledB : b.values ≠ []) :
    a.Confusable b ↔ a.key = b.key := by
  have pieces : a.pieces = b.pieces ↔
      [','].intercalate a.values = [','].intercalate b.values := by
    rw [← spelledBy_iff labelledB, SpelledBy, splitOn_intercalate labelledA]
    rfl
  have ends : a.key = b.key ↔ a.name.toList ++ '{' :: [','].intercalate a.values =
      b.name.toList ++ '{' :: [','].intercalate b.values := by
    rw [key_eq, key_eq, if_neg labelledA, if_neg labelledB, ← List.cons_append, ← List.cons_append,
      ← List.append_assoc, ← List.append_assoc, List.append_left_inj]
  rw [ends, append_cons_eq_append_cons_iff]
  simp only [Confusable, Extends, labelledA, labelledB, if_false, ne_eq, not_false_eq_true,
    true_and, spelledBy_iff labelledA, spelledBy_iff labelledB, pieces, ← String.toList_inj,
    exists_eq_left]
  apply or_congr_right
  apply or_congr
  · exact exists_congr fun _ => and_congr_right fun _ => eq_comm
  · exact exists_congr fun _ => and_congr_right fun _ => eq_comm

theorem confusable_iff_extends (unlabelled : a.values = []) : a.Confusable b ↔ a.Extends b := by
  simp [Confusable, Extends, unlabelled]

theorem confusable_comm : a.Confusable b ↔ b.Confusable a := by
  have same : (a.values ≠ [] ∧ b.values ≠ [] ∧ a.name = b.name ∧ a.pieces = b.pieces) ↔
      b.values ≠ [] ∧ a.values ≠ [] ∧ b.name = a.name ∧ b.pieces = a.pieces := by
    rw [and_left_comm, eq_comm, eq_comm (a := a.pieces)]
  rw [Confusable, Confusable, same, or_comm (a := a.Extends b)]

end Keys

variable [DecidableEq η]

/-- The value of a label. -/
def label (s : Series δ η) (key : η) : Option String :=
  s.labels.bind fun labels => (labels.lookup key).map Value.labelText

/-- As pairs of a name and a finite map. -/
def Different (a b : Series δ η) : Prop := a.name ≠ b.name ∨ ∃ key, a.label key ≠ b.label key

section Different

variable {a b : Series δ η}

/-- Without values there are no labels. -/
theorem label_eq_none {s : Series δ η} (unlabelled : s.values = []) (key : η) :
    s.label key = none := by
  rcases s with ⟨name, _ | labels, textual⟩
  · rfl
  · have empty : labels.entries = [] := List.map_eq_nil_iff.1 unlabelled
    rw [label, Option.bind_some, AList.lookup, empty, List.dlookup_nil, Option.map_none]

/-- Different series have one key exactly if they are confusable. -/
theorem confusable_iff (different : a.Different b) : a.Confusable b ↔ a.key = b.key := by
  rcases eq_or_ne a.values [] with unlabelledA | labelledA
  · rcases eq_or_ne b.values [] with unlabelledB | labelledB
    · have names : a.name ≠ b.name := by
        rcases different with names | ⟨key, labels⟩
        · exact names
        · rw [label_eq_none unlabelledA, label_eq_none unlabelledB] at labels
          exact absurd rfl labels
      rw [key_eq, key_eq, if_pos unlabelledA, if_pos unlabelledB, String.toList_inj,
        confusable_iff_extends unlabelledA]
      exact iff_of_false (fun goesOn => goesOn.1 unlabelledB) names
    · rw [confusable_iff_extends unlabelledA, extends_iff unlabelledA labelledB]
  · rcases eq_or_ne b.values [] with unlabelledB | labelledB
    · rw [confusable_comm, confusable_iff_extends unlabelledB, extends_iff unlabelledB labelledA]
      exact eq_comm
    · exact confusable_iff_of_labelled labelledA labelledB

end Different

section Counters

variable [Zero δ] [One δ] [Add δ] (core : Core δ η)

def increment (kind : MutexKind) (s : Series δ η) (value : Option (Value δ)) : StoreCall δ η Unit :=
  incrementCounter core kind s.name value s.labels

def counter (kind : MutexKind) (s : Series δ η) : StoreCall δ η (Value δ) :=
  getCounter core kind s.name s.labels

def increments (kind : MutexKind) (s : Series δ η) : List (Option (Value δ)) → StoreCall δ η Unit
  | [] => pure ()
  | value :: updates => increment core kind s value >>= fun _ => increments kind s updates

/-- Increments of the first series return, and leave the counter of the second one as it is. -/
def Unaffected (a b : Series δ η) : Prop :=
  ∀ (kind : MutexKind) (updates : List (Option (Value δ))) (s : State δ η),
    ∃ after, increments core kind a updates 0 s = some ((), after) ∧
      (counter core kind b 0 after).map Prod.fst = (counter core kind b 0 s).map Prod.fst

/-- The series have two keys and two counters. -/
def Separate (a b : Series δ η) : Prop :=
  makeKey a.name a.labels ≠ makeKey b.name b.labels ∧ Unaffected core a b ∧ Unaffected core b a

variable {core} {a b : Series δ η} {kind : MutexKind}

omit [One δ] [Add δ] in
theorem counter_eq (kind : MutexKind) (b : Series δ η) (s : State δ η) :
    counter core kind b 0 s = some ((s.countersStorage.lookup
      (core.stringHash (makeKey b.name b.labels))).getD (.double 0), s) := by
  rw [counter, getCounter, Call.withLock_free]
  rfl

theorem increment_eq (core : Core δ η) (kind : MutexKind) (a : Series δ η) (value : Option (Value δ))
    (s : State δ η) : ∃ written, increment core kind a value 0 s = some ((), { s with
      countersStorage := s.countersStorage.insert (core.stringHash (makeKey a.name a.labels))
        written }) := by
  simp only [increment, incrementCounter, Call.withLock_free, Call.bind_apply, Call.get_apply,
    Call.modify_apply, Option.bind_some]
  exact ⟨_, rfl⟩

theorem unaffected_of_ne (injective : Function.Injective core.stringHash)
    (differ : makeKey a.name a.labels ≠ makeKey b.name b.labels) : Unaffected core a b := by
  intro kind updates s
  induction updates generalizing s with
  | nil => exact ⟨s, rfl, rfl⟩
  | cons value updates ih =>
    obtain ⟨written, first⟩ := increment_eq core kind a value s
    obtain ⟨after, rest, same⟩ := ih { s with
      countersStorage := s.countersStorage.insert (core.stringHash (makeKey a.name a.labels))
        written }
    refine ⟨after, ?_, ?_⟩
    · rw [increments, Call.bind_apply, first]
      exact rest
    · rw [same, counter_eq, counter_eq, AList.lookup_insert_ne fun hashes =>
        differ (injective hashes).symm]
      rfl

theorem separate_iff_key_ne (injective : Function.Injective core.stringHash) :
    Separate core a b ↔ a.key ≠ b.key := by
  rw [key, key, ne_eq, String.toList_inj]
  constructor
  · exact fun separate => separate.1
  · intro differ
    exact ⟨differ, unaffected_of_ne injective differ, unaffected_of_ne injective (Ne.symm differ)⟩

/-- If different strings have different hashes, two different series are kept apart exactly if they
are not confusable. -/
theorem separate_iff (core : Core δ η) (injective : Function.Injective core.stringHash)
    (a b : Series δ η) (different : a.Different b) : Separate core a b ↔ ¬a.Confusable b := by
  rw [separate_iff_key_ne injective, confusable_iff different]

/-- A series with one label. -/
def labelled (name label value : String) : Series ℤ String where
  name := name
  labels := some (AList.singleton label (.string value))
  textual := by
    rintro _ ⟨⟩ entry member
    exact ⟨value, by rw [List.mem_singleton.1 member]⟩

theorem injective_plainMetrics : Function.Injective plainMetrics.stringHash :=
  Function.injective_id

theorem separate_iff_values :
    Separate plainMetrics (labelled "requests" "method" "GET")
      (labelled "requests" "method" "PUT") := by
  refine (separate_iff plainMetrics injective_plainMetrics _ _ (.inr ⟨"method", by decide⟩)).2 ?_
  have stops (more : List Char) : "requests".toList ≠ "requests".toList ++ '{' :: more := by
    simp
  rintro (⟨_, _, _, same⟩ | ⟨_, more, same, _⟩ | ⟨_, more, same, _⟩)
  · exact absurd same (by decide)
  · exact stops more same
  · exact stops more same

/-- The key does not say what the values are the values of. -/
theorem not_separate_labels :
    Function.Injective plainMetrics.stringHash ∧
    Different (labelled "requests" "method" "x") (labelled "requests" "path" "x") ∧
    makeKey "requests" (labelled "requests" "method" "x").labels =
      makeKey "requests" (labelled "requests" "path" "x").labels ∧
    ¬Unaffected plainMetrics (labelled "requests" "method" "x")
      (labelled "requests" "path" "x") := by
  refine ⟨injective_plainMetrics, .inr ⟨"method", by decide⟩, by decide, ?_⟩
  intro unaffected
  obtain ⟨after, ran, same⟩ := unaffected .plain [none] {}
  cases ran
  exact absurd same (by decide)

end Counters

end Series

end ProtoJS.Metrics
