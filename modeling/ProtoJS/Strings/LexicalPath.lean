import ProtoJS.Strings.Extraction

/-! # Lexical normalisation of paths

A path is taken segment by segment: an empty segment or a dot does nothing, two dots take back the
last name or, where there is none, climb. What is left is a number of climbs and the names after
them; at the root a climb does nothing. A path that is joined to a directory lies strictly below
it exactly if it names again as many of the last segments of the directory as it climbs, and then
at least one more.
-/

namespace ProtoJS.Strings

/-- Where a path leads, from where it starts. -/
structure Position where
  climbs : ℕ
  names : List Text
deriving DecidableEq, Repr

namespace Position

def start : Position := ⟨0, []⟩

def step (p : Position) (segment : Text) : Position :=
  if segment = [] ∨ segment = ['.'] then p
  else if segment = ['.', '.'] then
    if p.names = [] then ⟨p.climbs + 1, []⟩ else ⟨p.climbs, p.names.dropLast⟩
  else ⟨p.climbs, p.names ++ [segment]⟩

/-- One way after another: the second takes back names of the first before it climbs further. -/
def append (p q : Position) : Position :=
  ⟨p.climbs + (q.climbs - p.names.length),
    p.names.take (p.names.length - q.climbs) ++ q.names⟩

variable {p q : Position}

theorem append_start (p : Position) : p.append start = p := by
  simp [append, start]

theorem step_append (p q : Position) (segment : Text) :
    (p.append q).step segment = p.append (q.step segment) := by
  rw [step, step]
  split
  · rfl
  · split
    · by_cases named : q.names = []
      · rw [if_pos named]
        by_cases exhausted : p.names.length ≤ q.climbs
        · have used : (p.append q).names = [] := by
            simp [append, named, Nat.sub_eq_zero_of_le exhausted]
          rw [if_pos used]
          simp only [append, Position.mk.injEq]
          refine ⟨by omega, ?_⟩
          simp [Nat.sub_eq_zero_of_le (exhausted.trans (Nat.le_succ _))]
        · have left : (p.append q).names ≠ [] := by
            intro empty
            simp only [append, named, List.append_nil, List.take_eq_nil_iff] at empty
            rcases empty with zero | nil
            · omega
            · simp [nil] at exhausted
          rw [if_neg left]
          simp only [append, named, List.append_nil, Position.mk.injEq]
          refine ⟨by omega, ?_⟩
          rw [List.dropLast_eq_take, List.length_take, List.take_take]
          congr 1
          omega
      · have left : (p.append q).names ≠ [] := by simp [append, named]
        rw [if_neg named, if_neg left]
        simp only [append, List.dropLast_append_of_ne_nil named]
    · simp [append]

theorem foldl_step (p : Position) (segments : List Text) :
    segments.foldl step p = p.append (segments.foldl step start) := by
  induction segments using List.reverseRecOn with
  | nil => exact (append_start p).symm
  | append_singleton segments segment ih =>
    rw [List.foldl_append, List.foldl_append, ih]
    exact step_append ..

end Position

def isAbsolute (path : Text) : Bool := path.head? = some '/'

/-- The climbs and names of a path, whatever it starts from. -/
def reduce (path : Text) : Position := (path.splitOn '/').foldl Position.step .start

/-- At the root a climb does nothing. -/
def normal (path : Text) : Position :=
  if isAbsolute path then ⟨0, (reduce path).names⟩ else reduce path

/-- After normalisation the path has all segments of the directory, and more. -/
def StrictlyBelow (dir path : Text) : Prop :=
  isAbsolute path = isAbsolute dir ∧ (normal path).climbs = (normal dir).climbs ∧
    ∃ more, more ≠ [] ∧ (normal path).names = (normal dir).names ++ more

/-- The relative path comes back into the directory as far as it climbs out of it, and goes on. -/
def Enters (dir path : Text) : Prop :=
  dir ≠ [] ∧ (isAbsolute dir = true ∨ (reduce path).climbs ≤ (reduce dir).names.length) ∧
    ∃ more, more ≠ [] ∧ (reduce path).names =
      (reduce dir).names.drop ((reduce dir).names.length - (reduce path).climbs) ++ more

section Join

variable {dir path segment : Text}

theorem reduce_join (dir path : Text) :
    reduce (dir ++ '/' :: path) = (reduce dir).append (reduce path) := by
  rw [reduce, List.splitOn_append_cons_self, List.foldl_append, Position.foldl_step]
  rfl

theorem isAbsolute_join (present : dir ≠ []) (path : Text) :
    isAbsolute (dir ++ '/' :: path) = isAbsolute dir := by
  cases dir with
  | nil => exact absurd rfl present
  | cons c dir => rfl

theorem take_append_eq_iff {names q more : List Text} (n : ℕ) :
    names.take n ++ q = names ++ more ↔ q = names.drop n ++ more := by
  conv_lhs =>
    rhs
    rw [← List.take_append_drop n names, List.append_assoc]
  exact List.append_right_inj _

/-- A joined path lies strictly below the directory exactly if it enters it. -/
theorem strictlyBelow_join_iff : StrictlyBelow dir (dir ++ '/' :: path) ↔ Enters dir path := by
  by_cases present : dir = []
  · subst present
    exact iff_of_false (fun below => absurd below.1 (by simp [isAbsolute]))
      fun enters => enters.1 rfl
  · simp only [StrictlyBelow, Enters, isAbsolute_join present, normal, reduce_join, true_and,
      ne_eq, present, not_false_eq_true]
    cases absolute : isAbsolute dir with
    | true => simp [Position.append, take_append_eq_iff]
    | false =>
      simp only [Bool.false_eq_true, if_false, Position.append, take_append_eq_iff, false_or]
      refine and_congr_left fun _ => ?_
      omega

/-- A path that does not climb enters every directory if it has a name. -/
theorem enters_iff_of_climbs_eq_zero (stays : (reduce path).climbs = 0) :
    Enters dir path ↔ dir ≠ [] ∧ (reduce path).names ≠ [] := by
  simp [Enters, stays]

/-- One more name. -/
theorem StrictlyBelow.join (below : StrictlyBelow dir path) (present : path ≠ [])
    (name : reduce segment = ⟨0, [segment]⟩) : StrictlyBelow dir (path ++ '/' :: segment) := by
  obtain ⟨kind, climbs, more, _, names⟩ := below
  have same : (normal (path ++ '/' :: segment)).climbs = (normal path).climbs ∧
      (normal (path ++ '/' :: segment)).names = (normal path).names ++ [segment] := by
    simp only [normal, isAbsolute_join present, reduce_join, name, Position.append]
    split <;> simp
  refine ⟨(isAbsolute_join present segment).trans kind, same.1.trans climbs, more ++ [segment],
    by simp, ?_⟩
  rw [same.2, names, List.append_assoc]

end Join

end ProtoJS.Strings
