import ProtoJS.Strings.LexicalPath

/-! # A tree of files

A tree says what there is at each location, which is the list of names from the root. A path is
followed segment by segment; it leads to its last location, and what it passes before must be
directories. Directories are made on the way of a path, and a location is removed with everything
below it. There are no links.
-/

namespace ProtoJS.FileTree

open Strings

abbrev Location := List Text

inductive Node where
  | directory
  | file (content : Text)
deriving DecidableEq, Repr

abbrev Tree := Location → Option Node

/-- Where one segment leads; above the root is the root. -/
def follow (here : Location) (segment : Text) : Location :=
  if segment = [] ∨ segment = ['.'] then here
  else if segment = ['.', '.'] then here.dropLast
  else here ++ [segment]

/-- The locations after each segment. -/
def passedFrom (here : Location) : List Text → List Location
  | [] => []
  | segment :: segments =>
    follow here segment :: passedFrom (follow here segment) segments

def origin (here : Location) (path : Text) : Location :=
  if isAbsolute path then [] else here

/-- What a path passes, from a working directory. -/
def passed (here : Location) (path : Text) : List Location :=
  passedFrom (origin here path) (path.splitOn '/')

def locate (here : Location) (path : Text) : Location :=
  (path.splitOn '/').foldl follow (origin here path)

/-- There is something where the path leads, and only directories are passed before. -/
def Found (tree : Tree) (here : Location) (path : Text) : Prop :=
  (∀ location ∈ (passed here path).dropLast, tree location = some .directory) ∧
    tree (locate here path) ≠ none

instance (tree : Tree) (here : Location) (path : Text) : Decidable (Found tree here path) := by
  unfold Found
  infer_instance

/-- Only directories are passed before the path ends, and it does not end at one: a file can be
opened for writing. -/
def Writable (tree : Tree) (here : Location) (path : Text) : Prop :=
  (∀ location ∈ (passed here path).dropLast, tree location = some .directory) ∧
    tree (locate here path) ≠ some .directory

instance (tree : Tree) (here : Location) (path : Text) : Decidable (Writable tree here path) := by
  unfold Writable
  infer_instance

def write (location : Location) (node : Node) (tree : Tree) : Tree :=
  Function.update tree location (some node)

/-- Without a location and all below it. -/
def erase (location : Location) (tree : Tree) : Tree := fun other =>
  if location <+: other then none else tree other

/-- What a removal leaves: everything, if the path leads nowhere. -/
def remove (here : Location) (path : Text) (tree : Tree) : Tree :=
  if Found tree here path then erase (locate here path) tree else tree

/-- With a directory wherever there was nothing. -/
def withDirectories (locations : List Location) (tree : Tree) : Tree := fun location =>
  if location ∈ locations ∧ tree location = none then some .directory else tree location

/-- No file is in the way of directories at these locations. -/
def Clear (locations : List Location) (tree : Tree) : Prop :=
  ∀ location ∈ locations, tree location = none ∨ tree location = some .directory

variable {ε : Type} (e : ε)

/-- Throws at a file. -/
def makeDirectory (location : Location) : EStateM ε Tree PUnit := fun tree =>
  match tree location with
  | none => .ok .unit (write location .directory tree)
  | some .directory => .ok .unit tree
  | some (.file _) => .error e tree

def makeDirectories (locations : List Location) : EStateM ε Tree PUnit :=
  locations.foldlM (fun _ location => makeDirectory e location) .unit

section Passed

variable {here : Location} {path segment : Text}

theorem passedFrom_append (here : Location) (segments segments' : List Text) :
    passedFrom here (segments ++ segments') =
      passedFrom here segments ++ passedFrom (segments.foldl follow here) segments' := by
  induction segments generalizing here with
  | nil => rfl
  | cons segment segments ih =>
    rw [List.cons_append, passedFrom, passedFrom, ih, List.cons_append, List.foldl_cons]

theorem getLast?_passedFrom (here : Location) (segments : List Text) :
    (passedFrom here segments).getLast?.getD here = segments.foldl follow here := by
  induction segments generalizing here with
  | nil => rfl
  | cons segment segments ih =>
    rw [List.foldl_cons, ← ih, passedFrom, List.getLast?_cons]
    rfl

theorem passedFrom_ne_nil {segments : List Text} (present : segments ≠ []) (here : Location) :
    passedFrom here segments ≠ [] := by
  obtain ⟨segment, segments, rfl⟩ := List.exists_cons_of_ne_nil present
  exact List.cons_ne_nil _ _

theorem passed_ne_nil (here : Location) (path : Text) : passed here path ≠ [] :=
  passedFrom_ne_nil (List.splitOn_ne_nil '/' path) _

theorem passed_eq_concat (here : Location) (path : Text) :
    passed here path = (passed here path).dropLast ++ [locate here path] := by
  have last : (passed here path).getLast (passed_ne_nil here path) = locate here path := by
    have whole := getLast?_passedFrom (origin here path) (path.splitOn '/')
    rwa [← passed, List.getLast?_eq_some_getLast (passed_ne_nil here path)] at whole
  rw [← last]
  exact (List.dropLast_append_getLast _).symm

theorem locate_mem_passed (here : Location) (path : Text) :
    locate here path ∈ passed here path := by
  rw [passed_eq_concat]
  exact List.mem_append_right _ (List.mem_singleton_self _)

/-- What is appended to a path is followed from where the path leads. -/
theorem passed_append (present : path ≠ []) (more : Text) :
    passed here (path ++ '/' :: more) =
      passed here path ++ passedFrom (locate here path) (more.splitOn '/') := by
  rw [passed, List.splitOn_append_cons_self, passedFrom_append, origin, isAbsolute_join present]
  rfl

theorem locate_append (present : path ≠ []) (more : Text) :
    locate here (path ++ '/' :: more) = (more.splitOn '/').foldl follow (locate here path) := by
  rw [locate, List.splitOn_append_cons_self, List.foldl_append, origin, isAbsolute_join present]
  rfl

/-- Before its last location, an appended path passes all of the path to which it is appended. -/
theorem dropLast_passed_append (present : path ≠ []) (more : Text) :
    (passed here (path ++ '/' :: more)).dropLast =
      passed here path ++ (passedFrom (locate here path) (more.splitOn '/')).dropLast := by
  rw [passed_append present, List.dropLast_append_of_ne_nil]
  exact passedFrom_ne_nil (List.splitOn_ne_nil '/' more) _

/-- One more name passes one more location. -/
theorem passed_join (present : path ≠ []) (name : segment.splitOn '/' = [segment])
    (plain : ∀ here, follow here segment = here ++ [segment]) :
    passed here (path ++ '/' :: segment) = passed here path ++ [locate here path ++ [segment]] := by
  rw [passed_append present, name]
  simp only [passedFrom, plain]

theorem locate_join (present : path ≠ []) (name : segment.splitOn '/' = [segment])
    (plain : ∀ here, follow here segment = here ++ [segment]) :
    locate here (path ++ '/' :: segment) = locate here path ++ [segment] := by
  rw [locate_append present, name, List.foldl_cons, List.foldl_nil, plain]

end Passed

section Directories

variable {tree tree' : Tree} {locations more : List Location} {location : Location}

theorem withDirectories_withDirectories (covered : ∀ location ∈ locations, location ∈ more) :
    withDirectories more (withDirectories locations tree) = withDirectories more tree := by
  funext location
  by_cases nothing : tree location = none
  · by_cases inner : location ∈ locations
    · simp [withDirectories, nothing, inner, covered location inner]
    · simp [withDirectories, nothing, inner]
  · simp [withDirectories, nothing]

theorem withDirectories_of_mem (clear : Clear locations tree) (member : location ∈ locations) :
    withDirectories locations tree location = some .directory := by
  rcases clear location member with nothing | directory
  · simp [withDirectories, nothing, member]
  · simp [withDirectories, directory]

/-- A directory is there if it is made, or was there before. -/
theorem withDirectories_eq_directory_iff (clear : Clear locations tree) :
    withDirectories locations tree location = some .directory ↔
      location ∈ locations ∨ tree location = some .directory := by
  by_cases member : location ∈ locations
  · exact iff_of_true (withDirectories_of_mem clear member) (.inl member)
  · simp [withDirectories, member]

theorem withDirectories_cons (location : Location) (locations : List Location) (tree : Tree) :
    withDirectories locations (withDirectories [location] tree) =
      withDirectories (location :: locations) tree := by
  funext other
  by_cases same : other = location
  · subst same
    by_cases nothing : tree other = none
    · simp [withDirectories, nothing]
    · simp [withDirectories, nothing]
  · simp [withDirectories, same]

theorem clear_cons : Clear (location :: locations) tree ↔
    Clear [location] tree ∧ Clear locations tree := by
  simp [Clear]

theorem makeDirectory_of_clear (clear : Clear [location] tree) :
    makeDirectory e location tree = .ok .unit (withDirectories [location] tree) := by
  rcases clear location (List.mem_singleton_self _) with nothing | directory
  · have written : withDirectories [location] tree = write location .directory tree := by
      funext other
      by_cases same : other = location
      · simp [withDirectories, write, same, nothing]
      · simp [withDirectories, write, same]
    rw [written, makeDirectory, nothing]
  · have kept : withDirectories [location] tree = tree := by
      funext other
      by_cases same : other = location
      · simp [withDirectories, same, directory]
      · simp [withDirectories, same]
    rw [kept, makeDirectory, directory]

theorem clear_withDirectories (locations more : List Location) :
    Clear locations (withDirectories more tree) ↔ Clear locations tree := by
  refine forall₂_congr fun location _ => ?_
  by_cases nothing : tree location = none
  · by_cases made : location ∈ more
    · simp [withDirectories, nothing, made]
    · simp [withDirectories, nothing, made]
  · simp [withDirectories, nothing]

theorem makeDirectories_of_clear (clear : Clear locations tree) :
    makeDirectories e locations tree = .ok .unit (withDirectories locations tree) := by
  rw [makeDirectories]
  induction locations generalizing tree with
  | nil =>
    have kept : withDirectories [] tree = tree := by
      funext location
      simp [withDirectories]
    rw [kept]
    rfl
  | cons location locations ih =>
    rw [clear_cons] at clear
    have first := makeDirectory_of_clear e clear.1
    rw [List.foldlM_cons, ← withDirectories_cons]
    simp only [bind, EStateM.bind, first]
    exact ih ((clear_withDirectories _ _).mpr clear.2)

theorem makeDirectories_of_not_clear (blocked : ¬Clear locations tree) :
    ∃ tree', makeDirectories e locations tree = .error e tree' := by
  rw [makeDirectories]
  induction locations generalizing tree with
  | nil => exact absurd (by simp [Clear]) blocked
  | cons location locations ih =>
    rw [List.foldlM_cons]
    simp only [bind, EStateM.bind]
    by_cases first : Clear [location] tree
    · rw [makeDirectory_of_clear e first]
      apply ih
      rw [clear_withDirectories]
      intro rest
      exact blocked (clear_cons.mpr ⟨first, rest⟩)
    · rw [Clear, List.forall_mem_singleton, not_or] at first
      refine ⟨tree, ?_⟩
      cases node : tree location with
      | none => exact absurd node first.1
      | some node' =>
        cases node' with
        | directory => exact absurd node first.2
        | file content => simp [makeDirectory, node]

end Directories

end ProtoJS.FileTree
