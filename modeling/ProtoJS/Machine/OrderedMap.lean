import Mathlib

/-! # Ordered maps

A map is the list of its entries with the keys ascending, so two maps with the same entries are the
same list. Whatever order distinct keys are assigned in, the map that results is the sorted one.
-/

namespace ProtoJS.OrderedMap

variable {κ α : Type*} [LinearOrder κ]

/-- The keys ascend. -/
def Sorted (m : List (κ × α)) : Prop := (m.map Prod.fst).Pairwise (· < ·)

/-- `m[key] = value`. -/
def assign (key : κ) (value : α) : List (κ × α) → List (κ × α)
  | [] => [(key, value)]
  | (k, v) :: rest =>
    if key < k then (key, value) :: (k, v) :: rest
    else if key = k then (key, value) :: rest
    else (k, v) :: assign key value rest

/-- The assignments of a list, one after the other. -/
def assignAll (m l : List (κ × α)) : List (κ × α) :=
  l.foldl (fun m entry => assign entry.1 entry.2 m) m

/-- The value under a key. -/
def find (m : List (κ × α)) (key : κ) : Option α :=
  (m.find? fun entry => entry.1 = key).map Prod.snd

variable {m l : List (κ × α)} {key k : κ} {value v : α}

theorem sorted_nil : Sorted ([] : List (κ × α)) := List.Pairwise.nil

theorem sorted_cons :
    Sorted ((k, v) :: m) ↔ (∀ entry ∈ m, k < entry.1) ∧ Sorted m := by
  simp only [Sorted, List.map_cons, List.pairwise_cons, List.forall_mem_map]

theorem Sorted.nodup (sorted : Sorted m) : (m.map Prod.fst).Nodup :=
  List.Pairwise.imp (fun below => below.ne) sorted

/-- An assignment leaves the other entries and puts in its own. -/
theorem mem_assign (sorted : Sorted m) {entry : κ × α} :
    entry ∈ assign key value m ↔ entry = (key, value) ∨ entry.1 ≠ key ∧ entry ∈ m := by
  induction m with
  | nil => simp [assign]
  | cons head rest ih =>
    obtain ⟨k, v⟩ := head
    obtain ⟨above, sorted⟩ := sorted_cons.mp sorted
    rw [assign]
    split
    · rename_i below
      have others : ∀ e ∈ (k, v) :: rest, e.1 ≠ key := by
        intro e member
        rcases List.mem_cons.mp member with rfl | later
        · exact below.ne'
        · exact (below.trans (above e later)).ne'
      rw [List.mem_cons]
      exact or_congr_right ⟨fun member => ⟨others entry member, member⟩, And.right⟩
    · split
      · rename_i same
        subst same
        have others : ∀ e ∈ rest, e.1 ≠ key := fun e later => (above e later).ne'
        simp only [List.mem_cons]
        refine or_congr_right ⟨fun member => ⟨others entry member, .inr member⟩, ?_⟩
        rintro ⟨other, rfl | member⟩
        · exact absurd rfl other
        · exact member
      · rename_i differ
        rw [List.mem_cons, ih sorted, List.mem_cons]
        constructor
        · rintro (rfl | rfl | ⟨other, member⟩)
          · exact .inr ⟨fun same => differ same.symm, .inl rfl⟩
          · exact .inl rfl
          · exact .inr ⟨other, .inr member⟩
        · rintro (rfl | ⟨other, rfl | member⟩)
          · exact .inr (.inl rfl)
          · exact .inl rfl
          · exact .inr (.inr ⟨other, member⟩)

theorem sorted_assign (sorted : Sorted m) : Sorted (assign key value m) := by
  induction m with
  | nil => exact List.pairwise_singleton ..
  | cons head rest ih =>
    obtain ⟨k, v⟩ := head
    have ⟨above, sortedRest⟩ := sorted_cons.mp sorted
    rw [assign]
    split
    · rename_i below
      refine sorted_cons.mpr ⟨?_, sorted⟩
      intro entry member
      rcases List.mem_cons.mp member with rfl | later
      · exact below
      · exact below.trans (above entry later)
    · split
      · rename_i same
        subst same
        exact sorted_cons.mpr ⟨above, sortedRest⟩
      · rename_i notBelow differ
        refine sorted_cons.mpr ⟨?_, ih sortedRest⟩
        intro entry member
        rcases (mem_assign sortedRest).mp member with rfl | ⟨_, later⟩
        · exact lt_of_le_of_ne (le_of_not_gt notBelow) (Ne.symm differ)
        · exact above entry later

theorem sorted_assignAll (sorted : Sorted m) : Sorted (assignAll m l) := by
  induction l generalizing m with
  | nil => exact sorted
  | cons entry l ih => exact ih (sorted_assign sorted)

theorem find_eq_none_iff : find m key = none ↔ ∀ entry ∈ m, entry.1 ≠ key := by
  simp [find, List.find?_eq_none]

theorem find_assign : find (assign key value m) k = if key = k then some value else find m k := by
  induction m with
  | nil =>
    rcases eq_or_ne key k with rfl | other
    · simp [assign, find]
    · simp [assign, find, other]
  | cons head rest ih =>
    obtain ⟨k', v⟩ := head
    simp only [find] at ih ⊢
    rw [assign]
    rcases eq_or_ne key k with rfl | other
    · split
      · simp
      · split
        · simp
        · rename_i differ
          simp only [if_true] at ih
          rw [List.find?_cons_of_neg (by simpa using Ne.symm differ), ih, if_pos rfl]
    · simp only [if_neg other] at ih ⊢
      split
      · rw [List.find?_cons_of_neg (by simpa using other)]
      · split
        · rename_i same
          subst same
          rw [List.find?_cons_of_neg (by simpa using other),
            List.find?_cons_of_neg (by simpa using other)]
        · rw [List.find?_cons, List.find?_cons]
          split
          · rfl
          · exact ih

theorem Sorted.mem_iff_find (sorted : Sorted m) : (key, value) ∈ m ↔ find m key = some value := by
  simp only [find, Option.map_eq_some_iff]
  constructor
  · intro member
    refine ⟨(key, value), ?_, rfl⟩
    obtain ⟨before, after, rfl⟩ := List.append_of_mem member
    have distinct := sorted.nodup
    rw [List.map_append, List.map_cons, List.nodup_append] at distinct
    have none : before.find? (fun entry => entry.1 = key) = none := by
      rw [List.find?_eq_none]
      intro entry inside
      rw [decide_eq_true_eq]
      exact distinct.2.2 _ (List.mem_map_of_mem inside) _ List.mem_cons_self
    rw [List.find?_append, none, Option.none_or, List.find?_cons_of_pos (by simp)]
  · rintro ⟨entry, found, rfl⟩
    obtain rfl : entry.1 = key := by simpa using List.find?_some found
    exact List.mem_of_find?_eq_some found

/-- What is found last is behind what else has the key. -/
theorem find_reverse_eq_some_iff : find l.reverse key = some value ↔
    ∃ before after, l = before ++ (key, value) :: after ∧ ∀ entry ∈ after, entry.1 ≠ key := by
  simp only [find, Option.map_eq_some_iff, List.find?_eq_some_iff_append]
  constructor
  · rintro ⟨⟨k, v⟩, ⟨same, behind, before, split, others⟩, rfl⟩
    obtain rfl : k = key := by simpa using same
    refine ⟨before.reverse, behind.reverse, ?_, fun entry inside => ?_⟩
    · have turned := congrArg List.reverse split
      rw [List.reverse_reverse] at turned
      rw [turned]
      simp
    · simpa using others entry (List.mem_reverse.1 inside)
  · rintro ⟨before, after, rfl, others⟩
    refine ⟨(key, value), ⟨by simp, after.reverse, before.reverse, by simp, ?_⟩, rfl⟩
    intro entry inside
    simpa using others entry (List.mem_reverse.1 inside)

/-- Of several assignments to a key the last one counts. -/
theorem find_assignAll : find (assignAll m l) k = (find l.reverse k).or (find m k) := by
  induction l generalizing m with
  | nil => rfl
  | cons entry l ih =>
    have first : find (l.reverse ++ [entry]) k = (find l.reverse k).or (find [entry] k) := by
      simp only [find, List.find?_append, Option.map_or]
    rw [assignAll, List.foldl_cons, ← assignAll, ih, find_assign, List.reverse_cons, first,
      Option.or_assoc]
    congr 1
    rcases eq_or_ne entry.1 k with same | other
    · simp [find, same]
    · simp [find, other]

/-- The keys of a map are those that were assigned to. -/
theorem mem_keys_assignAll (sorted : Sorted m) :
    key ∈ (assignAll m l).map Prod.fst ↔ key ∈ m.map Prod.fst ∨ key ∈ l.map Prod.fst := by
  induction l generalizing m with
  | nil => simp [assignAll]
  | cons entry l ih =>
    have first : key ∈ (assign entry.1 entry.2 m).map Prod.fst ↔
        key = entry.1 ∨ key ∈ m.map Prod.fst := by
      simp only [List.mem_map, mem_assign sorted, or_and_right, exists_or, exists_eq_left]
      constructor
      · rintro (rfl | ⟨e, ⟨_, member⟩, rfl⟩)
        · exact .inl rfl
        · exact .inr ⟨e, member, rfl⟩
      · rintro (rfl | ⟨e, member, rfl⟩)
        · exact .inl rfl
        · rcases eq_or_ne e.1 entry.1 with same | other
          · exact .inl same.symm
          · exact .inr ⟨e, ⟨other, member⟩, rfl⟩
    rw [assignAll, List.foldl_cons, ← assignAll, ih (sorted_assign sorted), first, List.map_cons,
      List.mem_cons, or_comm (a := key = entry.1), or_assoc]

/-- Values may be changed before they are assigned or in the map that results. -/
theorem assign_mapValues {β : Type*} (f : α → β) :
    assign key (f value) (m.map (Prod.map id f)) = (assign key value m).map (Prod.map id f) := by
  induction m with
  | nil => rfl
  | cons head rest ih =>
    obtain ⟨k, v⟩ := head
    simp only [List.map_cons, Prod.map_apply, id, assign, ih]
    split
    · rfl
    · split
      · rfl
      · rfl

theorem assignAll_mapValues {β : Type*} (f : α → β) :
    assignAll (m.map (Prod.map id f)) (l.map (Prod.map id f)) =
      (assignAll m l).map (Prod.map id f) := by
  induction l generalizing m with
  | nil => rfl
  | cons entry l ih =>
    rw [List.map_cons, assignAll, List.foldl_cons, ← assignAll, Prod.map_fst, Prod.map_snd, id,
      assign_mapValues, ih]
    rfl

/-- A new key is one more entry. -/
theorem perm_assign (new : ∀ entry ∈ m, entry.1 ≠ key) :
    (assign key value m).Perm ((key, value) :: m) := by
  induction m with
  | nil => exact List.Perm.refl _
  | cons head rest ih =>
    obtain ⟨k, v⟩ := head
    rw [List.forall_mem_cons] at new
    rw [assign]
    split
    · exact List.Perm.refl _
    · rw [if_neg (Ne.symm new.1)]
      exact ((ih new.2).cons (k, v)).trans (List.Perm.swap ..)

theorem perm_assignAll (distinct : ((m ++ l).map Prod.fst).Nodup) :
    (assignAll m l).Perm (m ++ l) := by
  induction l generalizing m with
  | nil => simp [assignAll]
  | cons entry l ih =>
    have new : ∀ e ∈ m, e.1 ≠ entry.1 := by
      intro e member same
      rw [List.map_append, List.nodup_append] at distinct
      exact distinct.2.2 e.1 (List.mem_map_of_mem member) entry.1 (by simp) same
    have moved : (assign entry.1 entry.2 m ++ l).Perm (m ++ entry :: l) :=
      ((perm_assign new).append_right l).trans List.perm_middle.symm
    exact (ih ((moved.map Prod.fst).nodup_iff.mpr distinct)).trans moved

/-- Two maps with the same entries are the same. -/
theorem Sorted.eq_of_perm (sorted : Sorted m) (sorted' : Sorted l) (perm : m.Perm l) : m = l := by
  have below : m.Pairwise fun a b => a.1 < b.1 := List.pairwise_map.mp sorted
  have below' : l.Pairwise fun a b => a.1 < b.1 := List.pairwise_map.mp sorted'
  refine perm.eq_of_pairwise ?_ below below'
  intro a b _ _ lt gt
  exact absurd gt lt.not_gt

/-- The entries of a map, assigned in any order, give the map. -/
theorem assignAll_of_perm (sorted : Sorted m) (perm : l.Perm m) : assignAll [] l = m := by
  have distinct : (([] ++ l).map Prod.fst).Nodup := by
    rw [List.nil_append]
    exact (perm.map Prod.fst).nodup_iff.mpr sorted.nodup
  exact (sorted_assignAll sorted_nil).eq_of_perm sorted ((perm_assignAll distinct).trans perm)

end ProtoJS.OrderedMap
