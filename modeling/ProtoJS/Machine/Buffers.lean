import Mathlib

/-! # Tables of allocated buffers

An address stands for one allocation. The table keeps what has been allocated and every later
access in the order of the accesses, the newest first, so that releasing a buffer twice and
reading it after its release stay visible instead of being ruled out.
-/

namespace ProtoJS.Buffers

inductive Access (α : Type*) where
  | free (address : α)
  | read (address : α)
deriving DecidableEq, Repr

inductive Status where
  | absent
  | allocated
  | released
deriving DecidableEq, Repr

structure Table (α : Type*) where
  allocations : List α := []
  accesses : List (Access α) := []
deriving DecidableEq, Repr

namespace Table

variable {α : Type*}

def malloc (table : Table α) (address : α) : Table α :=
  { table with allocations := address :: table.allocations }

def free (table : Table α) (address : α) : Table α :=
  { table with accesses := .free address :: table.accesses }

def read (table : Table α) (address : α) : Table α :=
  { table with accesses := .read address :: table.accesses }

/-- Release what a pointer points to, unless it is null. -/
def freeIfSet (table : Table α) : Option α → Table α
  | some address => table.free address
  | none => table

variable [DecidableEq α]

def status (table : Table α) (address : α) : Status :=
  if .free address ∈ table.accesses then .released
  else if address ∈ table.allocations then .allocated
  else .absent

/-- How many times an address has been released. -/
def releases (table : Table α) (address : α) : ℕ := table.accesses.count (.free address)

end Table

variable {α : Type*}

/-- Some read of the address comes after a release of it. -/
def ReadAfterFree (address : α) : List (Access α) → Prop
  | [] => False
  | .read other :: older => (other = address ∧ .free address ∈ older) ∨ ReadAfterFree address older
  | .free _ :: older => ReadAfterFree address older

/-- Released exactly once and never read after that. -/
structure ReleasedOnce [DecidableEq α] (table : Table α) (address : α) : Prop where
  once : table.releases address = 1
  unread : ¬ReadAfterFree address table.accesses

namespace Table

variable [DecidableEq α] {table : Table α} {address other : α}

@[simp] theorem releases_malloc : (table.malloc other).releases address = table.releases address :=
  rfl

@[simp] theorem releases_read : (table.read other).releases address = table.releases address := by
  simp [releases, read]

@[simp] theorem releases_free_self :
    (table.free address).releases address = table.releases address + 1 := by
  simp [releases, free]

theorem releases_free_of_ne (distinct : other ≠ address) :
    (table.free other).releases address = table.releases address := by
  simp [releases, free, distinct]

theorem releases_freeIfSet_of_ne {pointer : Option α} (distinct : pointer ≠ some address) :
    (table.freeIfSet pointer).releases address = table.releases address := by
  cases pointer with
  | none => rfl
  | some other => exact releases_free_of_ne fun same => distinct (congrArg some same)

omit [DecidableEq α] in
@[simp] theorem readAfterFree_malloc :
    ReadAfterFree address (table.malloc other).accesses ↔ ReadAfterFree address table.accesses :=
  Iff.rfl

omit [DecidableEq α] in
@[simp] theorem readAfterFree_free :
    ReadAfterFree address (table.free other).accesses ↔ ReadAfterFree address table.accesses :=
  Iff.rfl

omit [DecidableEq α] in
@[simp] theorem readAfterFree_freeIfSet {pointer : Option α} :
    ReadAfterFree address (table.freeIfSet pointer).accesses ↔
      ReadAfterFree address table.accesses := by
  cases pointer <;> exact Iff.rfl

theorem readAfterFree_read : ReadAfterFree address (table.read address).accesses ↔
    0 < table.releases address ∨ ReadAfterFree address table.accesses := by
  simp [ReadAfterFree, read, releases, List.count_pos_iff]

omit [DecidableEq α] in
theorem readAfterFree_read_of_ne (distinct : other ≠ address) :
    ReadAfterFree address (table.read other).accesses ↔ ReadAfterFree address table.accesses := by
  simp [ReadAfterFree, read, distinct]

end Table

end ProtoJS.Buffers
