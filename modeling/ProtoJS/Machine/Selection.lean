import Mathlib

/-! # Selecting the first highest element

A loop goes through a list and keeps the highest element so far. Elements without a rank compare
with nothing: they never replace the kept element, and they are never replaced.
-/

namespace ProtoJS.Selection

variable {α β : Type*} [LinearOrder β] (rank : α → Option β)

/-- The kept element after one more element. -/
def keepHigher (kept x : α) : α :=
  match rank x, rank kept with
  | some r, some s => if s < r then x else kept
  | _, _ => kept

/-- The element is the first of the highest ones of a list. -/
def IsFirstHighest (l : List α) (m : α) : Prop :=
  ∃ before after r, l = before ++ m :: after ∧ rank m = some r ∧
    (∀ x ∈ before, ∀ s, rank x = some s → s < r) ∧ ∀ x ∈ after, ∀ s, rank x = some s → s ≤ r

variable {rank} {l : List α} {x m : α}

/-- Only an element with a rank replaces the kept one. -/
theorem keepHigher_cases (rank : α → Option β) (kept x : α) :
    keepHigher rank kept x = kept ∨ keepHigher rank kept x = x ∧ ∃ r, rank x = some r := by
  rw [keepHigher]
  split
  · split_ifs
    · exact .inr ⟨rfl, _, by assumption⟩
    · exact .inl rfl
  · exact .inl rfl

theorem keepHigher_of_none {kept : α} (unranked : rank x = none) :
    keepHigher rank kept x = kept := by
  rw [keepHigher, unranked]

theorem foldl_keepHigher_of_none (unranked : rank x = none) :
    l.foldl (keepHigher rank) x = x := by
  induction l with
  | nil => rfl
  | cons y l ih =>
    have kept : keepHigher rank x y = x := by
      rw [keepHigher, unranked]
      cases rank y <;> rfl
    rw [List.foldl_cons, kept, ih]

/-- One more element at the end of a list: it is the new one, or the kept one stays. -/
theorem IsFirstHighest.step (first : IsFirstHighest rank l m) (x : α) :
    IsFirstHighest rank (l ++ [x]) (keepHigher rank m x) := by
  obtain ⟨before, after, r, rfl, ranked, lower, notHigher⟩ := first
  have stays (bound : ∀ s, rank x = some s → s ≤ r) :
      IsFirstHighest rank ((before ++ m :: after) ++ [x]) m := by
    refine ⟨before, after ++ [x], r, by simp, ranked, lower, ?_⟩
    intro y member s ranked
    rcases List.mem_append.1 member with inAfter | isX
    · exact notHigher y inAfter s ranked
    · rw [List.mem_singleton.1 isX] at ranked
      exact bound s ranked
  cases rankX : rank x with
  | none =>
    rw [keepHigher, rankX]
    exact stays fun s ranked => by simp [rankX] at ranked
  | some s =>
    rw [keepHigher, rankX, ranked]
    change IsFirstHighest rank _ (if r < s then x else m)
    split_ifs with higher
    · refine ⟨before ++ m :: after, [], s, rfl, rankX, ?_, by simp⟩
      intro y member t rankedY
      rcases List.mem_append.1 member with inBefore | rest
      · exact (lower y inBefore t rankedY).trans higher
      · rcases List.mem_cons.1 rest with rfl | inAfter
        · obtain rfl : r = t := Option.some.inj (ranked.symm.trans rankedY)
          exact higher
        · exact (notHigher y inAfter t rankedY).trans_lt higher
    · apply stays
      rintro t rankedX
      obtain rfl : s = t := Option.some.inj (rankX.symm.trans rankedX)
      exact not_lt.1 higher

/-- The loop from an element with a rank on. -/
theorem isFirstHighest_foldl {r : β} (ranked : rank x = some r) :
    IsFirstHighest rank (x :: l) (l.foldl (keepHigher rank) x) := by
  induction l using List.reverseRecOn with
  | nil => exact ⟨[], [], r, rfl, ranked, by simp, by simp⟩
  | append_singleton l y ih =>
    rw [List.foldl_append]
    exact ih.step y

namespace IsFirstHighest

variable {m' : α}

theorem mem (first : IsFirstHighest rank l m) : m ∈ l := by
  obtain ⟨before, after, r, rfl, -⟩ := first
  simp

theorem exists_rank (first : IsFirstHighest rank l m) : ∃ r, rank m = some r := by
  obtain ⟨before, after, r, -, ranked, -⟩ := first
  exact ⟨r, ranked⟩

theorem le {y : α} {r s : β} (first : IsFirstHighest rank l m) (ranked : rank m = some r)
    (member : y ∈ l) (rankedY : rank y = some s) : s ≤ r := by
  obtain ⟨before, after, t, rfl, rankedM, lower, notHigher⟩ := first
  obtain rfl : t = r := Option.some.inj (rankedM.symm.trans ranked)
  rcases List.mem_append.1 member with inBefore | rest
  · exact (lower y inBefore s rankedY).le
  · rcases List.mem_cons.1 rest with rfl | inAfter
    · exact (Option.some.inj (rankedY.symm.trans ranked)).le
    · exact notHigher y inAfter s rankedY

/-- In a strictly sorted list the first highest element is told by the order of the list. -/
theorem iff_of_sorted [LinearOrder α] (sorted : l.Pairwise (· < ·)) (member : m ∈ l) :
    IsFirstHighest rank l m ↔ ∃ r, rank m = some r ∧
      ∀ x ∈ l, ∀ s, rank x = some s → s ≤ r ∧ (x < m → s < r) := by
  constructor
  · rintro ⟨before, after, r, rfl, ranked, lower, notHigher⟩
    refine ⟨r, ranked, ?_⟩
    intro x memberX s rankedX
    rcases List.mem_append.1 memberX with inBefore | rest
    · have less := lower x inBefore s rankedX
      exact ⟨less.le, fun _ => less⟩
    · have notBefore : ¬ x < m := by
        rcases List.mem_cons.1 rest with rfl | inAfter
        · exact lt_irrefl x
        · have tail := (List.pairwise_append.1 sorted).2.1
          exact ((List.pairwise_cons.1 tail).1 x inAfter).not_gt
      refine ⟨?_, fun less => absurd less notBefore⟩
      rcases List.mem_cons.1 rest with rfl | inAfter
      · exact (Option.some.inj (rankedX.symm.trans ranked)).le
      · exact notHigher x inAfter s rankedX
  · rintro ⟨r, ranked, bounds⟩
    obtain ⟨before, after, rfl⟩ := List.append_of_mem member
    refine ⟨before, after, r, rfl, ranked, ?_, ?_⟩
    · intro x inBefore s rankedX
      apply (bounds x (by simp [inBefore]) s rankedX).2
      exact (List.pairwise_append.1 sorted).2.2 x inBefore m (by simp)
    · intro x inAfter s rankedX
      exact (bounds x (by simp [inAfter]) s rankedX).1

/-- A list has one first highest element. -/
theorem unique (first : IsFirstHighest rank l m) (other : IsFirstHighest rank l m') : m = m' := by
  obtain ⟨before, after, r, rfl, ranked, lower, notHigher⟩ := first
  obtain ⟨before', after', r', same, ranked', lower', notHigher'⟩ := other
  rcases List.append_eq_append_iff.1 same with ⟨between, rfl, tail⟩ | ⟨between, rfl, tail⟩
  · cases between with
    | nil => exact (List.cons.inj tail).1
    | cons y between =>
      obtain ⟨rfl, rfl⟩ := List.cons.inj tail
      have less := lower' m (by simp) r ranked
      have le := notHigher m' (by simp) r' ranked'
      exact absurd less le.not_gt
  · cases between with
    | nil => exact (List.cons.inj tail).1.symm
    | cons y between =>
      obtain ⟨rfl, rfl⟩ := List.cons.inj tail
      have less := lower m' (by simp) r' ranked'
      have le := notHigher' m (by simp) r ranked
      exact absurd less le.not_gt

end IsFirstHighest

end ProtoJS.Selection
