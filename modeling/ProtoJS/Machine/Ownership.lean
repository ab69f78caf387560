import Mathlib

/-! # References that a function owns

A function works on a memory and keeps a ledger of the references it owns. It receives references
from the functions it calls, which keep ledgers of their own, and gives references away when it
releases or moves them. To give away what is not owned is a fault. A call is balanced if it is
without fault and the function owns at its end what its result carries to the caller.
-/

namespace ProtoJS

structure Ledger (σ ρ : Type) where
  memory : σ
  owned : Multiset ρ := 0
  /-- What was given away without being owned. -/
  faults : List (Multiset ρ) := []

/-- A program of one function, on memories `σ` with references `ρ`. -/
structure Owning (σ ρ α : Type) where
  run : Ledger σ ρ → α × Ledger σ ρ
  /-- No fault is forgotten. -/
  grows : ∀ l, l.faults <:+ (run l).2.faults

namespace Owning

variable {σ ρ α β : Type}

protected def pure (result : α) : Owning σ ρ α where
  run l := (result, l)
  grows _ := List.suffix_rfl

protected def bind (p : Owning σ ρ α) (rest : α → Owning σ ρ β) : Owning σ ρ β where
  run l := (rest (p.run l).1).run (p.run l).2
  grows l := (p.grows l).trans ((rest (p.run l).1).grows (p.run l).2)

instance : Monad (Owning σ ρ) where
  pure := Owning.pure
  bind := Owning.bind

/-- Look at the memory. -/
def inspect (look : σ → α) : Owning σ ρ α where
  run l := (look l.memory, l)
  grows _ := List.suffix_rfl

/-- Change the memory. -/
def modify (change : σ → σ) : Owning σ ρ Unit where
  run l := ((), { l with memory := change l.memory })
  grows _ := List.suffix_rfl

/-- Release or move references. -/
def give [DecidableEq ρ] (references : Multiset ρ) : Owning σ ρ Unit where
  run l := ((),
    { l with
      owned := l.owned - references
      faults := if references ≤ l.owned then l.faults else references :: l.faults })
  grows l := by
    simp only
    split
    · exact List.suffix_rfl
    · exact List.suffix_cons ..

variable (references : α → Multiset ρ)

/-- Code outside of the program works on the memory and hands over what its result refers to. -/
def foreign (code : σ → σ × α) : Owning σ ρ α where
  run l := ((code l.memory).2,
    { l with
      memory := (code l.memory).1
      owned := l.owned + references (code l.memory).2 })
  grows _ := List.suffix_rfl

/-- Another function is called, with a ledger of its own. -/
def call (body : Owning σ ρ α) : Owning σ ρ α where
  run l := ((body.run { memory := l.memory }).1,
    { l with
      memory := (body.run { memory := l.memory }).2.memory
      owned := l.owned + references (body.run { memory := l.memory }).1 })
  grows _ := List.suffix_rfl

/-- Nothing is given away without being owned. -/
def Sound (p : Owning σ ρ α) (l : Ledger σ ρ) : Prop := (p.run l).2.faults = l.faults

/-- Without fault, the program leaves what its result refers to. -/
def Settles (p : Owning σ ρ α) (l : Ledger σ ρ) : Prop :=
  p.Sound l ∧ (p.run l).2.owned = references (p.run l).1

/-- The call of the function is balanced. -/
def Balanced (body : Owning σ ρ α) (memory : σ) : Prop :=
  body.Settles references { memory := memory }

/-- Whatever the memory, the program has no fault and leaves what is said, from what is said. -/
def Accounts (p : Owning σ ρ α) (before : Multiset ρ) (after : α → Multiset ρ) : Prop :=
  ∀ l, l.owned = before → p.Sound l ∧ (p.run l).2.owned = after (p.run l).1

variable {references} {l : Ledger σ ρ} {p : Owning σ ρ α} {rest : α → Owning σ ρ β}
  {before given : Multiset ρ} {after : α → Multiset ρ}

@[simp] theorem run_pure (result : α) : (pure result : Owning σ ρ α).run l = (result, l) := rfl

@[simp] theorem run_bind : (p >>= rest).run l = (rest (p.run l).1).run (p.run l).2 := rfl

@[simp] theorem run_inspect (look : σ → α) :
    (inspect look : Owning σ ρ α).run l = (look l.memory, l) := rfl

@[simp] theorem run_modify (change : σ → σ) :
    (modify change : Owning σ ρ Unit).run l = ((), { l with memory := change l.memory }) := rfl

@[simp] theorem result_foreign (code : σ → σ × α) :
    ((foreign references code).run l).1 = (code l.memory).2 := rfl

@[simp] theorem memory_foreign (code : σ → σ × α) :
    ((foreign references code).run l).2.memory = (code l.memory).1 := rfl

@[simp] theorem owned_foreign (code : σ → σ × α) :
    ((foreign references code).run l).2.owned = l.owned + references (code l.memory).2 := rfl

@[simp] theorem owned_call : ((call references p).run l).2.owned =
    l.owned + references ((call references p).run l).1 := rfl

@[simp] theorem owned_give [DecidableEq ρ] :
    ((give given : Owning σ ρ Unit).run l).2.owned = l.owned - given := rfl

@[simp] theorem memory_give [DecidableEq ρ] :
    ((give given : Owning σ ρ Unit).run l).2.memory = l.memory := rfl

@[simp] theorem sound_pure (result : α) : (pure result : Owning σ ρ α).Sound l := rfl

@[simp] theorem sound_inspect (look : σ → α) : (inspect look : Owning σ ρ α).Sound l := rfl

@[simp] theorem sound_modify (change : σ → σ) : (modify change : Owning σ ρ Unit).Sound l := rfl

@[simp] theorem sound_foreign (code : σ → σ × α) : (foreign references code).Sound l := rfl

@[simp] theorem sound_call : (call references p).Sound l := rfl

@[simp] theorem sound_give_iff [DecidableEq ρ] :
    (give given : Owning σ ρ Unit).Sound l ↔ given ≤ l.owned := by
  simp [Sound, give]

/-- A sequence is without fault if its parts are. -/
theorem sound_bind_iff :
    (p >>= rest).Sound l ↔ p.Sound l ∧ (rest (p.run l).1).Sound (p.run l).2 := by
  have first := p.grows l
  have second := (rest (p.run l).1).grows (p.run l).2
  simp only [Sound, run_bind]
  constructor
  · intro whole
    rw [whole] at second
    have middle : (p.run l).2.faults = l.faults :=
      second.eq_of_length (Nat.le_antisymm second.length_le first.length_le)
    exact ⟨middle, whole.trans middle.symm⟩
  · rintro ⟨middle, whole⟩
    exact whole.trans middle

theorem settles_bind_iff {references : β → Multiset ρ} : (p >>= rest).Settles references l ↔
    p.Sound l ∧ (rest (p.run l).1).Settles references (p.run l).2 := by
  rw [Settles, Settles, sound_bind_iff, and_assoc, run_bind]

theorem settles_pure_iff (result : α) :
    (pure result : Owning σ ρ α).Settles references l ↔ l.owned = references result := by
  simp [Settles]

section Accounts

theorem Accounts.settles (accounts : p.Accounts before references) (owned : l.owned = before) :
    p.Settles references l := accounts l owned

theorem Accounts.balanced (accounts : p.Accounts 0 references) (memory : σ) :
    p.Balanced references memory := accounts _ rfl

theorem Accounts.bind {last : β → Multiset ρ} (first : p.Accounts before after)
    (second : ∀ a, (rest a).Accounts (after a) last) : (p >>= rest).Accounts before last := by
  intro l owned
  obtain ⟨sound, left⟩ := first l owned
  obtain ⟨also, leaves⟩ := second _ _ left
  exact ⟨sound_bind_iff.mpr ⟨sound, also⟩, leaves⟩

theorem accounts_pure {result : α} (same : before = after result) :
    (pure result : Owning σ ρ α).Accounts before after :=
  fun _ owned => ⟨rfl, owned.trans same⟩

theorem accounts_modify (change : σ → σ) :
    (modify change : Owning σ ρ Unit).Accounts before fun _ => before :=
  fun _ owned => ⟨rfl, owned⟩

/-- What is owned can be given away. -/
theorem accounts_give [DecidableEq ρ] (held : given ≤ before) :
    (give given : Owning σ ρ Unit).Accounts before fun _ => before - given := by
  intro l owned
  constructor
  · apply sound_give_iff.mpr
    rw [owned]
    exact held
  · rw [owned_give, owned]

theorem accounts_foreign (code : σ → σ × α) :
    (foreign references code).Accounts before fun result => before + references result :=
  fun _ owned => ⟨rfl, congrArg (· + _) owned⟩

theorem accounts_call (body : Owning σ ρ α) :
    (call references body).Accounts before fun result => before + references result :=
  fun _ owned => ⟨rfl, congrArg (· + _) owned⟩

end Accounts

end Owning

end ProtoJS
