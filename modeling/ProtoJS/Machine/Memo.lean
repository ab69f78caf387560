import Mathlib

/-! # Visiting a graph with a memory

A visit of a request looks for its key in the memory. When nothing is there, the requests it
depends on are visited one after the other, and only then is it completed: it gets the next number,
under its key. A visit that is under way has left no trace in the memory. So a visit ends when no
chain of requests that are not in the memory goes on forever, and a chain of requests with keys of
their own that goes on forever keeps it from ending.
-/

namespace ProtoJS

/-- Requests with their keys. A request without a list of dependencies is refused. -/
structure RequestGraph (ρ κ : Type*) where
  key : ρ → κ
  next : ρ → Option (List ρ)

/-- The completed requests, the last one first, and the number each visit has come to. -/
structure Memory (ρ : Type*) where
  done : List ρ
  log : List (ρ × ℕ)

section Folds

variable {α β : Type*} {f g : β → α → Option β} {l : List α} {b c : β}

/-- A fold that succeeds does so with every function that agrees where the first one succeeds. -/
theorem foldlM_of_le (le : ∀ b, ∀ a ∈ l, ∀ c, f b a = some c → g b a = some c)
    (succeeds : l.foldlM f b = some c) : l.foldlM g b = some c := by
  induction l generalizing b with
  | nil => exact succeeds
  | cons a l ih =>
    rw [List.foldlM_cons] at succeeds ⊢
    obtain ⟨d, first, rest⟩ := Option.bind_eq_some_iff.1 succeeds
    rw [le b a List.mem_cons_self d first]
    exact ih (fun b a' member => le b a' (List.mem_cons_of_mem a member)) rest

/-- What each step keeps, the fold keeps. What each step shows of its element and the later steps
keep, holds of every element in the end. -/
theorem foldlM_forall {P : β → Prop} {Q : β → α → Prop}
    (keep : ∀ b, ∀ a ∈ l, ∀ c, f b a = some c → ∀ a', Q b a' → Q c a')
    (step : ∀ b, ∀ a ∈ l, ∀ c, f b a = some c → P b → P c ∧ Q c a) (start : P b)
    (succeeds : l.foldlM f b = some c) : P c ∧ (∀ a, Q b a → Q c a) ∧ ∀ a ∈ l, Q c a := by
  induction l generalizing b with
  | nil =>
    obtain rfl := Option.some.inj succeeds
    exact ⟨start, fun a shown => shown, by simp⟩
  | cons a l ih =>
    rw [List.foldlM_cons] at succeeds
    obtain ⟨d, first, rest⟩ := Option.bind_eq_some_iff.1 succeeds
    obtain ⟨kept, shown⟩ := step b a List.mem_cons_self d first start
    obtain ⟨keptAll, shownBefore, shownAll⟩ :=
      ih (fun b a' member => keep b a' (List.mem_cons_of_mem a member))
        (fun b a' member => step b a' (List.mem_cons_of_mem a member)) kept rest
    refine ⟨keptAll, ?_, List.forall_mem_cons.2 ⟨shownBefore a shown, shownAll⟩⟩
    intro a' before
    exact shownBefore a' (keep b a List.mem_cons_self d first a' before)

theorem foldlM_preserves {P : β → Prop} (step : ∀ b, ∀ a ∈ l, ∀ c, f b a = some c → P b → P c)
    (start : P b) (succeeds : l.foldlM f b = some c) : P c :=
  (foldlM_forall (Q := fun _ _ => True) (fun _ _ _ _ _ _ shown => shown)
    (fun b a member c succeeds kept => ⟨step b a member c succeeds kept, trivial⟩) start succeeds).1

theorem exists_of_rel {γ : Type*} {R : β → γ → Prop} {x : Option β} {y : Option γ}
    (related : Option.Rel R x y) (there : x = some b) : ∃ c, y = some c ∧ R b c := by
  cases related with
  | none => exact absurd there (by simp)
  | some related =>
    obtain rfl := Option.some.inj there
    exact ⟨_, rfl, related⟩

theorem exists_of_rel' {γ : Type*} {R : β → γ → Prop} {x : Option β} {y : Option γ} {c : γ}
    (related : Option.Rel R x y) (there : y = some c) : ∃ b, x = some b ∧ R b c := by
  cases related with
  | none => exact absurd there (by simp)
  | some related =>
    obtain rfl := Option.some.inj there
    exact ⟨_, rfl, related⟩

theorem rel_map {γ δ ε : Type*} {S : β → ε → Prop} {R : γ → δ → Prop} {x : Option β} {y : Option ε}
    {p : β → γ} {q : ε → δ} (imp : ∀ b e, S b e → R (p b) (q e)) (related : Option.Rel S x y) :
    Option.Rel R (x.map p) (y.map q) := by
  cases related with
  | none => exact .none
  | some related => exact .some (imp _ _ related)

/-- Two folds that agree in every step agree. -/
theorem foldlM_rel {γ : Type*} {R : β → γ → Prop} {h : γ → α → Option γ} {c : γ}
    (step : ∀ b c, ∀ a ∈ l, R b c → Option.Rel R (f b a) (h c a)) (start : R b c) :
    Option.Rel R (l.foldlM f b) (l.foldlM h c) := by
  induction l generalizing b c with
  | nil => exact .some start
  | cons a l ih =>
    rw [List.foldlM_cons, List.foldlM_cons]
    have first := step b c a List.mem_cons_self start
    generalize f b a = x at first
    generalize h c a = y at first
    cases first with
    | none => exact .none
    | some related =>
      exact ih (fun b c a' member => step b c a' (List.mem_cons_of_mem a member)) related

theorem getElem?_append_of_some {l' : List α} {j : ℕ} {a : α} (there : l[j]? = some a) :
    (l ++ l')[j]? = some a := by
  obtain ⟨bound, -⟩ := List.getElem?_eq_some_iff.1 there
  rw [List.getElem?_append_left bound, there]

end Folds

namespace RequestGraph

variable {ρ κ : Type*} [DecidableEq κ] (g : RequestGraph ρ κ) (initial : κ → Option ℕ) (base : ℕ)

/-- The number under a key: that of the request completed last, or one from before. -/
def number : List ρ → κ → Option ℕ
  | [], k => initial k
  | r :: older, k => if g.key r = k then some (base + older.length) else number older k

/-- A visit with so many levels of nested visits. -/
def visit : ℕ → Memory ρ → ρ → Option (Memory ρ)
  | 0, _, _ => none
  | stack + 1, m, r =>
    match g.number initial base m.done (g.key r) with
    | some i => some { m with log := m.log ++ [(r, i)] }
    | none =>
      match g.next r with
      | none => some m
      | some rs => (rs.foldlM (visit stack) m).map fun m =>
          { done := r :: m.done, log := m.log ++ [(r, base + m.done.length)] }

/-- The request depends on another one. -/
def Next (r r' : ρ) : Prop := ∃ rs, g.next r = some rs ∧ r' ∈ rs

/-- A request that is not there from before leads to those it depends on. -/
def Leads (r r' : ρ) : Prop := initial (g.key r) = none ∧ g.Next r r'

/-- No other request that is reached has the key. -/
def OwnKey (g : RequestGraph ρ κ) (start r : ρ) : Prop :=
  ∀ q, Relation.ReflTransGen g.Next start q → g.key q = g.key r → q = r

/-- A chain of requests of some kind that goes on forever. -/
def Endless (g : RequestGraph ρ κ) (initial : κ → Option ℕ) (start : ρ) (kind : ρ → Prop) : Prop :=
  ∃ chain : ℕ → ρ, chain 0 = start ∧
    ∀ n, kind (chain n) ∧ g.Leads initial (chain n) (chain (n + 1))

variable {g initial base} {m m' : Memory ρ} {r r' : ρ} {rs : List ρ} {stack stack' : ℕ} {k : κ}
  {i : ℕ}

/-- What a visit can do. -/
theorem visit_cases (visited : g.visit initial base (stack + 1) m r = some m') :
    (∃ i, g.number initial base m.done (g.key r) = some i ∧
      m' = { m with log := m.log ++ [(r, i)] }) ∨
    (g.number initial base m.done (g.key r) = none ∧ g.next r = none ∧ m' = m) ∨
    ∃ rs between, g.number initial base m.done (g.key r) = none ∧ g.next r = some rs ∧
      rs.foldlM (g.visit initial base stack) m = some between ∧
      m' = { done := r :: between.done
             log := between.log ++ [(r, base + between.done.length)] } := by
  rw [visit] at visited
  split at visited
  · rename_i i found
    exact .inl ⟨i, found, (Option.some.inj visited).symm⟩
  · rename_i absent
    right
    split at visited
    · rename_i refused
      exact .inl ⟨absent, refused, (Option.some.inj visited).symm⟩
    · rename_i rs dependencies
      obtain ⟨between, nested, completed⟩ := Option.map_eq_some_iff.1 visited
      exact .inr ⟨rs, between, absent, dependencies, nested, completed.symm⟩

/-- A visit that returns does so with more stack. -/
theorem visit_succ (visited : g.visit initial base stack m r = some m') :
    g.visit initial base (stack + 1) m r = some m' := by
  induction stack generalizing m r m' with
  | zero => exact absurd visited (by simp [visit])
  | succ stack ih =>
    rw [visit]
    rcases visit_cases visited with ⟨i, found, rfl⟩ | ⟨absent, refused, rfl⟩ |
      ⟨rs, between, absent, dependencies, nested, rfl⟩
    · simp [found]
    · simp [absent, refused]
    · have nested := foldlM_of_le (fun b a _ c step => ih step) nested
      simp [absent, dependencies, nested]

theorem visit_mono (le : stack ≤ stack') (visited : g.visit initial base stack m r = some m') :
    g.visit initial base stack' m r = some m' := by
  induction le with
  | refl => exact visited
  | step _ ih => exact visit_succ ih

section Termination

/-- A list of visits ends when each of them does. -/
theorem exists_foldlM_visit
    (ends : ∀ r ∈ rs, ∀ m, ∃ stack m', g.visit initial base stack m r = some m')
    (m : Memory ρ) : ∃ stack m', rs.foldlM (g.visit initial base stack) m = some m' := by
  induction rs generalizing m with
  | nil => exact ⟨0, m, rfl⟩
  | cons r rs ih =>
    obtain ⟨stack, between, first⟩ := ends r List.mem_cons_self m
    obtain ⟨stack', m', rest⟩ :=
      ih (fun r' member => ends r' (List.mem_cons_of_mem r member)) between
    refine ⟨max stack stack', m', ?_⟩
    rw [List.foldlM_cons, visit_mono (le_max_left _ _) first]
    exact foldlM_of_le (fun b a _ c step => visit_mono (le_max_right _ _) step) rest

theorem number_eq_none : g.number initial base m.done k = none ↔
    initial k = none ∧ ∀ r ∈ m.done, g.key r ≠ k := by
  induction m.done with
  | nil => simp [number]
  | cons r older ih =>
    rw [number]
    split_ifs with same
    · simp [same]
    · simp [same, ih]

/-- The relation whose descending chains are the chains of requests of some kind. -/
def LeadsFrom (g : RequestGraph ρ κ) (initial : κ → Option ℕ) (kind : ρ → Prop) (r' r : ρ) : Prop :=
  kind r ∧ g.Leads initial r r'

omit [DecidableEq κ] in
theorem acc_iff_not_endless {kind : ρ → Prop} :
    Acc (g.LeadsFrom initial kind) r ↔ ¬ g.Endless initial r kind := by
  rw [← not_iff_not, not_not, not_acc_iff_exists_descending_chain]
  rfl

theorem exists_visit_of_acc (acc : Acc (g.LeadsFrom initial fun _ => True) r) (m : Memory ρ) :
    ∃ stack m', g.visit initial base stack m r = some m' := by
  induction acc generalizing m with
  | intro r _ ih =>
    cases found : g.number initial base m.done (g.key r) with
    | some i => exact ⟨1, _, by rw [visit, found]⟩
    | none =>
      cases dependencies : g.next r with
      | none => exact ⟨1, m, by simp [visit, found, dependencies]⟩
      | some rs =>
        have new : initial (g.key r) = none := (number_eq_none.1 found).1
        obtain ⟨stack, between, nested⟩ := exists_foldlM_visit
          (fun r' member m => ih r' ⟨trivial, new, rs, dependencies, member⟩ m) m
        exact ⟨stack + 1, _, by rw [visit, found, dependencies]; simp only [nested]; rfl⟩

/-- A visit ends when no chain of requests that are not there from before goes on forever. -/
theorem exists_visit (ends : ¬ g.Endless initial r fun _ => True) (m : Memory ρ) :
    ∃ stack m', g.visit initial base stack m r = some m' :=
  exists_visit_of_acc (acc_iff_not_endless.2 ends) m

/-- A memory of requests that are reached and whose chains end. -/
def Ended (g : RequestGraph ρ κ) (initial : κ → Option ℕ) (start : ρ) (m : Memory ρ) : Prop :=
  ∀ r ∈ m.done, Relation.ReflTransGen g.Next start r ∧
    Acc (g.LeadsFrom initial (g.OwnKey start)) r

/-- A visit that returns leaves only requests behind whose chains end, its own among them. One that
is found in the memory under its own key is itself one of these. -/
theorem acc_of_visit {start : ρ} (reached : Relation.ReflTransGen g.Next start r)
    (ended : Ended g initial start m) (visited : g.visit initial base stack m r = some m') :
    Ended g initial start m' ∧ Acc (g.LeadsFrom initial (g.OwnKey start)) r := by
  induction stack generalizing m r m' with
  | zero => exact absurd visited (by simp [visit])
  | succ stack ih =>
    rcases visit_cases visited with ⟨i, found, rfl⟩ | ⟨absent, refused, rfl⟩ |
      ⟨rs, between, absent, dependencies, nested, rfl⟩
    · refine ⟨ended, Acc.intro r ?_⟩
      rintro q ⟨own, new, next⟩
      have done : ∃ p ∈ m.done, g.key p = g.key r := by
        by_contra none
        push Not at none
        rw [number_eq_none.2 ⟨new, none⟩] at found
        exact absurd found (by simp)
      obtain ⟨p, member, same⟩ := done
      obtain ⟨reachedP, accP⟩ := ended p member
      obtain rfl := own p reachedP same
      exact accP.inv ⟨own, new, next⟩
    · refine ⟨ended, Acc.intro r ?_⟩
      rintro q ⟨-, -, rs, dependencies, -⟩
      rw [refused] at dependencies
      exact absurd dependencies (by simp)
    · have reachedNext (q : ρ) (member : q ∈ rs) : Relation.ReflTransGen g.Next start q :=
        reached.tail ⟨rs, dependencies, member⟩
      obtain ⟨endedNext, -, accNext⟩ :=
        foldlM_forall (Q := fun _ q => Acc (g.LeadsFrom initial (g.OwnKey start)) q)
          (fun _ _ _ _ _ _ shown => shown)
          (fun m q member m' visited ended => ih (reachedNext q member) ended visited) ended nested
      have acc : Acc (g.LeadsFrom initial (g.OwnKey start)) r := by
        apply Acc.intro
        rintro q ⟨-, -, rs', dependencies', member⟩
        rw [dependencies] at dependencies'
        obtain rfl := Option.some.inj dependencies'
        exact accNext q member
      exact ⟨List.forall_mem_cons.2 ⟨⟨reached, acc⟩, endedNext⟩, acc⟩

/-- No chain of requests with keys of their own goes on forever when a visit with an empty memory
returns. -/
theorem not_endless_of_visit (visited : g.visit initial base stack ⟨[], []⟩ r = some m') :
    ¬ g.Endless initial r (g.OwnKey r) :=
  acc_iff_not_endless.1 (acc_of_visit .refl (by simp [Ended]) visited).2

end Termination

section Identity

/-- Every visit has come to the number of a completed request with its key. -/
def Keyed (g : RequestGraph ρ κ) (base : ℕ) (m : Memory ρ) : Prop :=
  ∀ e ∈ m.log, ∃ j, e.2 = base + j ∧ (m.done.reverse.map g.key)[j]? = some (g.key e.1)

theorem keyed_of_number {older : List ρ} (empty : ∀ k, initial k = none)
    (found : g.number initial base older k = some i) :
    ∃ j, i = base + j ∧ (older.reverse.map g.key)[j]? = some k := by
  induction older with
  | nil => exact absurd (found.symm.trans (empty k)) (by simp)
  | cons r older ih =>
    rw [number] at found
    split_ifs at found with same
    · refine ⟨older.length, (Option.some.inj found).symm, ?_⟩
      simp [same]
    · obtain ⟨j, sameNumber, keyed⟩ := ih found
      refine ⟨j, sameNumber, ?_⟩
      rw [List.reverse_cons, List.map_append]
      exact getElem?_append_of_some keyed

theorem Keyed.visit (empty : ∀ k, initial k = none) (keyed : Keyed g base m)
    (visited : g.visit initial base stack m r = some m') : Keyed g base m' := by
  induction stack generalizing m r m' with
  | zero => exact absurd visited (by simp [RequestGraph.visit])
  | succ stack ih =>
    rcases visit_cases visited with ⟨i, found, rfl⟩ | ⟨absent, refused, rfl⟩ |
      ⟨rs, between, absent, dependencies, nested, rfl⟩
    · refine List.forall_mem_append.2 ⟨keyed, ?_⟩
      rw [List.forall_mem_singleton]
      exact keyed_of_number empty found
    · exact keyed
    · have keyed : Keyed g base between :=
        foldlM_preserves (fun b q _ c visited kept => ih kept visited) keyed nested
      refine List.forall_mem_append.2 ⟨?_, ?_⟩
      · intro e before
        obtain ⟨j, sameNumber, keyedE⟩ := keyed e before
        refine ⟨j, sameNumber, ?_⟩
        rw [List.reverse_cons, List.map_append]
        exact getElem?_append_of_some keyedE
      · rw [List.forall_mem_singleton]
        exact ⟨between.done.length, rfl, by simp⟩

/-- The requests that a completed request depends on have been visited, unless they are refused. -/
def Recorded (g : RequestGraph ρ κ) (m : Memory ρ) : Prop :=
  ∀ p ∈ m.done, ∀ q, g.Next p q → (g.next q).isSome → q ∈ m.log.map Prod.fst

theorem log_subset_of_visit (visited : g.visit initial base stack m r = some m') :
    m.log.map Prod.fst ⊆ m'.log.map Prod.fst := by
  induction stack generalizing m r m' with
  | zero => exact absurd visited (by simp [visit])
  | succ stack ih =>
    rcases visit_cases visited with ⟨i, found, rfl⟩ | ⟨absent, refused, rfl⟩ |
      ⟨rs, between, absent, dependencies, nested, rfl⟩
    · simp
    · simp
    · have before : m.log.map Prod.fst ⊆ between.log.map Prod.fst :=
        foldlM_preserves (P := fun b => m.log.map Prod.fst ⊆ b.log.map Prod.fst)
          (fun b q _ c visited kept => List.Subset.trans kept (ih visited)) (List.Subset.refl _)
          nested
      rw [List.map_append]
      exact List.Subset.trans before (List.subset_append_left _ _)

/-- Unless it is refused, a visited request is in the log. -/
theorem Recorded.visit (recorded : Recorded g m)
    (visited : g.visit initial base stack m r = some m') :
    Recorded g m' ∧ ((g.next r).isSome → r ∈ m'.log.map Prod.fst) := by
  induction stack generalizing m r m' with
  | zero => exact absurd visited (by simp [RequestGraph.visit])
  | succ stack ih =>
    rcases visit_cases visited with ⟨i, found, rfl⟩ | ⟨absent, refused, rfl⟩ |
      ⟨rs, between, absent, dependencies, nested, rfl⟩
    · refine ⟨?_, by simp⟩
      intro p done q next present
      rw [List.map_append]
      exact List.mem_append_left _ (recorded p done q next present)
    · exact ⟨recorded, by simp [refused]⟩
    · obtain ⟨recorded, -, visitedAll⟩ :=
        foldlM_forall (P := Recorded g) (Q := fun b q => (g.next q).isSome → q ∈ b.log.map Prod.fst)
          (fun b a member c visited q shown present => log_subset_of_visit visited (shown present))
          (fun b q member c visited kept => ih kept visited) recorded nested
      refine ⟨?_, by simp⟩
      intro p done q next present
      rw [List.map_append]
      apply List.mem_append_left
      rcases List.mem_cons.1 done with rfl | done
      · obtain ⟨rs', dependencies', member⟩ := next
        rw [dependencies] at dependencies'
        obtain rfl := Option.some.inj dependencies'
        exact visitedAll q member present
      · exact recorded p done q next present

omit [DecidableEq κ] in
/-- Where keys tell requests apart, everything that visited requests reach has been visited. -/
theorem mem_log_of_reached {p q : ρ} (keyed : Keyed g base m) (recorded : Recorded g m)
    (own : ∀ q, Relation.ReflTransGen g.Next p q → ∀ d ∈ m.done, g.key d = g.key q → d = q)
    (start : (g.next p).isSome → p ∈ m.log.map Prod.fst)
    (reached : Relation.ReflTransGen g.Next p q) (present : (g.next q).isSome) :
    q ∈ m.log.map Prod.fst := by
  induction reached with
  | refl => exact start present
  | tail reached next ih =>
    rename_i between last
    have ⟨rs, dependencies, _⟩ := next
    obtain ⟨e, member, same⟩ := List.mem_map.1 (ih (by simp [dependencies]))
    obtain ⟨j, -, key⟩ := keyed e member
    have done : g.key between ∈ m.done.map g.key := by
      have there := List.mem_of_getElem? key
      rw [List.map_reverse, List.mem_reverse, same] at there
      exact there
    obtain ⟨d, isDone, sameKey⟩ := List.mem_map.1 done
    obtain rfl := own between reached d isDone sameKey
    exact recorded d isDone last next present

omit [DecidableEq κ] in
/-- Visits under different keys come to different numbers. -/
theorem Keyed.key_eq (keyed : Keyed g base m) {e e' : ρ × ℕ} (member : e ∈ m.log)
    (member' : e' ∈ m.log) (same : e.2 = e'.2) : g.key e.1 = g.key e'.1 := by
  obtain ⟨j, number, key⟩ := keyed e member
  obtain ⟨j', number', key'⟩ := keyed e' member'
  obtain rfl : j = j' := by omega
  exact Option.some.inj (key.symm.trans key')

/-- What a visit does to the numbers under keys that no request it reaches has. -/
theorem number_visit_of_ne (others : ∀ q, Relation.ReflTransGen g.Next r q → g.key q ≠ k)
    (visited : g.visit initial base stack m r = some m') :
    g.number initial base m'.done k = g.number initial base m.done k := by
  induction stack generalizing m r m' with
  | zero => exact absurd visited (by simp [visit])
  | succ stack ih =>
    rcases visit_cases visited with ⟨i, found, rfl⟩ | ⟨absent, refused, rfl⟩ |
      ⟨rs, between, absent, dependencies, nested, rfl⟩
    · rfl
    · rfl
    · have same : g.number initial base between.done k = g.number initial base m.done k := by
        refine foldlM_preserves
          (P := fun b => g.number initial base b.done k = g.number initial base m.done k) ?_ rfl
          nested
        intro b q member c visited kept
        rw [ih (fun p reached => others p (.head ⟨rs, dependencies, member⟩ reached)) visited, kept]
      rw [number, if_neg (others r .refl), same]

/-- A request that another one depends on, directly or not, has another key. -/
def Apart (g : RequestGraph ρ κ) (S : ρ → Prop) : Prop :=
  ∀ p q, S p → Relation.TransGen g.Next p q → g.key p ≠ g.key q

/-- The memory of visits of requests in a set: keys are completed once, and every visit has come to
the number that is under its key now. -/
structure Consistent (g : RequestGraph ρ κ) (initial : κ → Option ℕ) (base : ℕ) (S : ρ → Prop)
    (m : Memory ρ) : Prop where
  keys_nodup : (m.done.map g.key).Nodup
  settled : ∀ e ∈ m.log, g.number initial base m.done (g.key e.1) = some e.2
  done_mem : ∀ q ∈ m.done, S q ∧ (g.next q).isSome
  log_mem : ∀ e ∈ m.log, S e.1

theorem Consistent.visit {S : ρ → Prop} (closed : ∀ p q, S p → g.Next p q → S q)
    (apart : Apart g S) (inside : S r) (consistent : Consistent g initial base S m)
    (visited : g.visit initial base stack m r = some m') : Consistent g initial base S m' := by
  induction stack generalizing m r m' with
  | zero => exact absurd visited (by simp [RequestGraph.visit])
  | succ stack ih =>
    rcases visit_cases visited with ⟨i, found, rfl⟩ | ⟨absent, refused, rfl⟩ |
      ⟨rs, between, absent, dependencies, nested, rfl⟩
    · exact {
        keys_nodup := consistent.keys_nodup
        settled := List.forall_mem_append.2 ⟨consistent.settled, by simpa using found⟩
        done_mem := consistent.done_mem
        log_mem := List.forall_mem_append.2 ⟨consistent.log_mem, by simpa using inside⟩ }
    · exact consistent
    · have next (q : ρ) (member : q ∈ rs) : g.Next r q := ⟨rs, dependencies, member⟩
      have kept : Consistent g initial base S between ∧
          g.number initial base between.done (g.key r) = none := by
        refine foldlM_preserves (P := fun b => Consistent g initial base S b ∧
          g.number initial base b.done (g.key r) = none) ?_ ⟨consistent, absent⟩ nested
        rintro b q member c visited ⟨consistent, absent⟩
        refine ⟨ih (closed r q inside (next q member)) consistent visited, ?_⟩
        rw [number_visit_of_ne _ visited, absent]
        intro p reached
        exact (apart r p inside (Relation.TransGen.head' (next q member) reached)).symm
      obtain ⟨consistent, absent⟩ := kept
      have unused := (number_eq_none.1 absent).2
      refine ⟨?_, ?_, ?_, ?_⟩
      · rw [List.map_cons, List.nodup_cons]
        refine ⟨?_, consistent.keys_nodup⟩
        intro member
        obtain ⟨q, isDone, same⟩ := List.mem_map.1 member
        exact unused q isDone same
      · refine List.forall_mem_append.2 ⟨?_, ?_⟩
        · intro e before
          have settled := consistent.settled e before
          rw [number, if_neg, settled]
          intro same
          rw [← same, absent] at settled
          exact absurd settled (by simp)
        · rw [List.forall_mem_singleton, number, if_pos rfl]
      · exact List.forall_mem_cons.2 ⟨⟨inside, by rw [dependencies]; rfl⟩, consistent.done_mem⟩
      · exact List.forall_mem_append.2 ⟨consistent.log_mem, by simpa using inside⟩

end Identity

end RequestGraph

end ProtoJS
