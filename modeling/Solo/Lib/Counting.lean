import Mathlib.Algebra.Order.BigOperators.Ring.List

/-!
# Counting by classes

Elements counted once for each class they are in, against elements counted once. The two agree when
no element is in two classes.
-/

namespace Counting

variable {α β : Type} (p : α → β → Bool) (cs : List α)

/-- `x` counts once for every class it is in. -/
theorem sum_countP_cons (x : β) (l : List β) :
    (cs.map fun c => (x :: l).countP (p c)).sum = (cs.map fun c => l.countP (p c)).sum +
    cs.countP (p · x) := by
  induction cs with
  | nil => rfl
  | cons c cs ih =>
    rw [List.map_cons, List.sum_cons, ih, List.map_cons, List.sum_cons, List.countP_cons,
      List.countP_cons]
    omega

theorem countP_any_cons (x : β) (l : List β) :
    (x :: l).countP (fun y => cs.any (p · y)) = l.countP (fun y => cs.any (p · y)) +
    min 1 (cs.countP (p · x)) := by
  rw [List.countP_cons]
  congr 1
  cases hany : cs.any (p · x) with
  | true =>
    have hpos : 0 < cs.countP (p · x) := List.countP_pos_iff.2 (List.any_eq_true.1 hany)
    rw [if_pos rfl]
    omega
  | false =>
    have hzero : cs.countP (p · x) = 0 := List.countP_eq_zero.2 (List.any_eq_false.1 hany)
    simp [hzero]

theorem countP_any_le_sum (l : List β) :
    l.countP (fun y => cs.any (p · y)) ≤ (cs.map fun c => l.countP (p c)).sum := by
  induction l with
  | nil => simp
  | cons x l ih =>
    rw [sum_countP_cons, countP_any_cons]
    omega

theorem sum_countP_eq_iff (l : List β) :
    (cs.map fun c => l.countP (p c)).sum = l.countP (fun y => cs.any (p · y)) ↔
    ∀ x ∈ l, cs.countP (p · x) ≤ 1 := by
  induction l with
  | nil => simp [List.map_const', List.sum_replicate_nat]
  | cons x l ih =>
    have hle := countP_any_le_sum p cs l
    rw [sum_countP_cons, countP_any_cons, List.forall_mem_cons, ← ih]
    omega

end Counting
