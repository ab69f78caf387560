import ProtoJS.Machine.FileTree

/-! # Paths and archives in a tree

A path that is built of the names from the root passes exactly their beginnings. An archive is a
list of entries, of which the last one counts at each location; it is unpacked below a location and
leaves what is elsewhere.
-/

namespace ProtoJS.FileTree

open Strings

section Names

/-- A name leads from a directory to what is there under this name. -/
def Plain (segment : Text) : Prop :=
  segment ≠ [] ∧ '/' ∉ segment ∧ segment ≠ ['.'] ∧ segment ≠ ['.', '.']

instance (segment : Text) : Decidable (Plain segment) := by
  unfold Plain
  infer_instance

/-- The path of a location. -/
def absolute (names : Location) : Text := names.flatMap ('/' :: ·)

variable {here : Location} {names main location : Location} {segment entry : Text}
  {segments : List Text} {tree : Tree}

end Names

section Archives

variable {entries : List (Location × Node)} {target location : Location} {tree : Tree}

end Archives

end ProtoJS.FileTree
