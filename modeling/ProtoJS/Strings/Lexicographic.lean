import Mathlib

/-! # Three-way comparison of lists

The order of lists is the lexicographic one. A comparison of two lists is decided at their
divergence, the first place at which they are not the same. What follows it only matters when one
list has ended there.
-/

namespace ProtoJS.Strings

/-- The three values of a comparison function in C. -/
def threeWay : Ordering → ℤ
  | .lt => -1
  | .eq => 0
  | .gt => 1

theorem threeWay_injective : Function.Injective threeWay := by
  intro o o' same
  cases o <;> cases o' <;> simp_all [threeWay]

theorem threeWay_swap (o : Ordering) : threeWay o.swap = -threeWay o := by
  cases o <;> rfl

section Cmp

variable {α β : Type*} [LinearOrder α] [LinearOrder β]

/-- How two elements of a linear order compare. -/
def order (a b : α) : Ordering := cmp a b

theorem order_eq_lt {a b : α} : order a b = .lt ↔ a < b := cmp_eq_lt_iff a b

theorem order_eq_eq {a b : α} : order a b = .eq ↔ a = b := cmp_eq_eq_iff a b

theorem order_eq_gt {a b : α} : order a b = .gt ↔ b < a := cmp_eq_gt_iff a b

@[simp] theorem order_self (a : α) : order a a = .eq := order_eq_eq.2 rfl

theorem swap_order (a b : α) : (order a b).swap = order b a := cmp_swap a b

theorem threeWay_order (a b : α) :
    threeWay (order a b) = if a < b then -1 else if b < a then 1 else 0 := by
  rw [order, cmp, cmpUsing]
  split_ifs <;> rfl

theorem threeWay_order_pos {a b : α} : 0 < threeWay (order a b) ↔ b < a := by
  rw [← order_eq_gt (a := a) (b := b)]
  cases order a b <;> simp [threeWay]

theorem threeWay_order_nonneg {a b : α} : 0 ≤ threeWay (order a b) ↔ b ≤ a := by
  rw [← not_lt (a := a) (b := b), ← order_eq_lt (a := a) (b := b)]
  cases order a b <;> simp [threeWay]

theorem threeWay_order_nonpos {a b : α} : threeWay (order a b) ≤ 0 ↔ a ≤ b := by
  rw [← swap_order b a, threeWay_swap, neg_nonpos, threeWay_order_nonneg]

theorem threeWay_order_neg {a b : α} : threeWay (order a b) < 0 ↔ a < b := by
  rw [← swap_order b a, threeWay_swap, neg_lt_zero, threeWay_order_pos]

theorem threeWay_order_eq_zero {a b : α} : threeWay (order a b) = 0 ↔ a = b := by
  rw [← order_eq_eq (a := a) (b := b)]
  cases order a b <;> simp [threeWay]

theorem order_then_of_ne {a b : α} (differ : a ≠ b) (o : Ordering) :
    (order a b).then o = order a b := by
  cases first : order a b with
  | eq => exact absurd (order_eq_eq.1 first) differ
  | lt => rfl
  | gt => rfl

theorem order_toLex (a c : α) (b d : β) :
    order (toLex (a, b)) (toLex (c, d)) = (order a c).then (order b d) := by
  rcases lt_trichotomy a c with less | rfl | more
  · have first : toLex (a, b) < toLex (c, d) := Prod.Lex.toLex_lt_toLex.2 (.inl less)
    rw [(order_eq_lt).2 first, (order_eq_lt).2 less]
    rfl
  · rw [order_self, Ordering.eq_then]
    rcases lt_trichotomy b d with less | rfl | more
    · have second : toLex (a, b) < toLex (a, d) := Prod.Lex.toLex_lt_toLex.2 (.inr ⟨rfl, less⟩)
      rw [(order_eq_lt).2 second, (order_eq_lt).2 less]
    · rw [order_self, order_self]
    · have second : toLex (a, d) < toLex (a, b) := Prod.Lex.toLex_lt_toLex.2 (.inr ⟨rfl, more⟩)
      rw [(order_eq_gt).2 second, (order_eq_gt).2 more]
  · have first : toLex (c, d) < toLex (a, b) := Prod.Lex.toLex_lt_toLex.2 (.inl more)
    rw [(order_eq_gt).2 first, (order_eq_gt).2 more]
    rfl

theorem order_inl (a b : α) : order (Sum.inlₗ a : α ⊕ₗ β) (Sum.inlₗ b) = order a b := by
  rcases lt_trichotomy a b with less | rfl | more
  · rw [order_eq_lt.2 less, order_eq_lt.2 (Sum.Lex.inl_lt_inl_iff.2 less)]
  · rw [order_self, order_self]
  · rw [order_eq_gt.2 more, order_eq_gt.2 (Sum.Lex.inl_lt_inl_iff.2 more)]

theorem order_inr (a b : β) : order (Sum.inrₗ a : α ⊕ₗ β) (Sum.inrₗ b) = order a b := by
  rcases lt_trichotomy a b with less | rfl | more
  · rw [order_eq_lt.2 less, order_eq_lt.2 (Sum.Lex.inr_lt_inr_iff.2 less)]
  · rw [order_self, order_self]
  · rw [order_eq_gt.2 more, order_eq_gt.2 (Sum.Lex.inr_lt_inr_iff.2 more)]

theorem order_inl_inr (a : α) (b : β) : order (Sum.inlₗ a : α ⊕ₗ β) (Sum.inrₗ b) = .lt :=
  order_eq_lt.2 (Sum.Lex.inl_lt_inr a b)

theorem order_inr_inl (a : β) (b : α) : order (Sum.inrₗ a : α ⊕ₗ β) (Sum.inlₗ b) = .gt :=
  order_eq_gt.2 (Sum.Lex.inl_lt_inr b a)

theorem order_coe (a b : α) : order (a : WithTop α) b = order a b := by
  rcases lt_trichotomy a b with less | rfl | more
  · rw [order_eq_lt.2 less, order_eq_lt.2 (WithTop.coe_lt_coe.2 less)]
  · rw [order_self, order_self]
  · rw [order_eq_gt.2 more, order_eq_gt.2 (WithTop.coe_lt_coe.2 more)]

@[simp] theorem order_top_coe (a : α) : order (⊤ : WithTop α) a = .gt :=
  order_eq_gt.2 (WithTop.coe_lt_top a)

@[simp] theorem order_coe_top (a : α) : order (a : WithTop α) ⊤ = .lt :=
  order_eq_lt.2 (WithTop.coe_lt_top a)

theorem order_eq_swap_iff {a b : α} {c d : β} : order a b = order c d ↔ order b a = order d c := by
  rw [← swap_order b a, ← swap_order d c]
  exact Ordering.swap_inj

end Cmp

section Fibers

variable {α β : Type*} [LinearOrder α] [LinearOrder β]

/-- What lies between two points of a lexicographic product with one first component has this
component, and lies between the two in the second one. -/
theorem ordConnected_fiber (a : α) {s : Set β} (connected : s.OrdConnected) :
    {x : α ×ₗ β | (ofLex x).1 = a ∧ (ofLex x).2 ∈ s}.OrdConnected := by
  rw [Set.ordConnected_iff]
  rintro x ⟨overX, inX⟩ z ⟨overZ, inZ⟩ _ y ⟨below, above⟩
  have first : (ofLex y).1 = a := by
    apply le_antisymm
    · exact (Prod.Lex.monotone_fst_ofLex above).trans_eq overZ
    · exact overX.symm.trans_le (Prod.Lex.monotone_fst_ofLex below)
  have lower := (Prod.Lex.le_iff.1 below).resolve_left (by rw [overX, first]; exact lt_irrefl a)
  have upper := (Prod.Lex.le_iff.1 above).resolve_left (by rw [overZ, first]; exact lt_irrefl a)
  exact ⟨first, connected.out inX inZ ⟨lower.2, upper.2⟩⟩

end Fibers

section Lists

variable {α : Type*} [LinearOrder α]

theorem order_nil_cons (c : α) (l : List α) : order [] (c :: l) = .lt :=
  (order_eq_lt).2 (List.nil_lt_cons c l)

theorem order_cons_nil (c : α) (l : List α) : order (c :: l) [] = .gt :=
  (order_eq_gt).2 (List.nil_lt_cons c l)

theorem order_cons_cons (c d : α) (l r : List α) :
    order (c :: l) (d :: r) = (order c d).then (order l r) := by
  rcases lt_trichotomy c d with less | rfl | more
  · have first : c :: l < d :: r := List.cons_lt_cons_iff.2 (.inl less)
    rw [(order_eq_lt).2 first, (order_eq_lt).2 less]
    rfl
  · rw [order_self, Ordering.eq_then]
    rcases lt_trichotomy l r with less | rfl | more
    · have second : c :: l < c :: r := List.cons_lt_cons_iff.2 (.inr ⟨rfl, less⟩)
      rw [(order_eq_lt).2 second, (order_eq_lt).2 less]
    · rw [order_self, order_self]
    · have second : c :: r < c :: l := List.cons_lt_cons_iff.2 (.inr ⟨rfl, more⟩)
      rw [(order_eq_gt).2 second, (order_eq_gt).2 more]
  · have first : d :: r < c :: l := List.cons_lt_cons_iff.2 (.inl more)
    rw [(order_eq_gt).2 first, (order_eq_gt).2 more]
    rfl

theorem order_append_left (l x y : List α) : order (l ++ x) (l ++ y) = order x y := by
  induction l with
  | nil => rfl
  | cons c l ih => rw [List.cons_append, List.cons_append, order_cons_cons, order_self,
      Ordering.eq_then, ih]

/-- The first place at which two lists are not the same. -/
inductive Divergence (α : Type*) where
  | none
  | leftEnds (next : α)
  | rightEnds (next : α)
  | differ (left right : α)
deriving DecidableEq, Repr

def divergence : List α → List α → Divergence α
  | [], [] => .none
  | [], d :: _ => .leftEnds d
  | c :: _, [] => .rightEnds c
  | c :: l, d :: r => if c = d then divergence l r else .differ c d

/-- What a divergence says about the two lists. -/
inductive Diverges : List α → List α → Divergence α → Prop
  | none (l : List α) : Diverges l l .none
  | leftEnds (l : List α) (d : α) (rest : List α) : Diverges l (l ++ d :: rest) (.leftEnds d)
  | rightEnds (r : List α) (c : α) (rest : List α) : Diverges (r ++ c :: rest) r (.rightEnds c)
  | differ (common : List α) (c d : α) (l r : List α) (ne : c ≠ d) :
    Diverges (common ++ c :: l) (common ++ d :: r) (.differ c d)

omit [LinearOrder α] in
theorem Diverges.cons {l r : List α} {divergence : Divergence α} (c : α)
    (diverges : Diverges l r divergence) : Diverges (c :: l) (c :: r) divergence := by
  cases diverges with
  | none => exact .none _
  | leftEnds _ d rest => exact .leftEnds (c :: l) d rest
  | rightEnds _ d rest => exact .rightEnds (c :: r) d rest
  | differ common a b l r ne => exact .differ (c :: common) a b l r ne

theorem diverges_divergence (l r : List α) : Diverges l r (divergence l r) := by
  induction l generalizing r with
  | nil =>
    cases r with
    | nil => exact .none []
    | cons d r => exact .leftEnds [] d r
  | cons c l ih =>
    cases r with
    | nil => exact .rightEnds [] c l
    | cons d r =>
      rw [divergence]
      split_ifs with same
      · subst same
        exact (ih r).cons c
      · exact .differ [] c d l r same

/-- Where two lists differ in a character, nothing that follows matters. -/
theorem order_append_differ {common l r x y : List α} {c d : α} (ne : c ≠ d) :
    order ((common ++ c :: l) ++ x) ((common ++ d :: r) ++ y) = order c d := by
  rw [List.append_assoc, List.append_assoc, order_append_left, List.cons_append, List.cons_append,
    order_cons_cons, order_then_of_ne ne]

end Lists

end ProtoJS.Strings
