import Mathlib.Data.List.Nodup
import Mathlib.Data.Nat.Notation
import Mathlib.Logic.Function.Iterate
import Mathlib.Order.Nat

/-!
# A backlog that is worked off in batches

A batch is what can be done of the first `limit` items; what cannot be done stays where it is. All
that can be done is done eventually, exactly where each such item has fewer than `limit` others
before it that cannot (`eventually_iff`); and so it is with a part of it (`eventually_only_iff`).
-/

namespace Backlog

variable {α : Type} {p : α → Bool} {limit : ℕ} {l : List α}

def batch (p : α → Bool) (limit : ℕ) (l : List α) : List α := (l.take limit).filter p

/-- What is left after a batch. -/
def drain (p : α → Bool) (limit : ℕ) (l : List α) : List α :=
  (l.take limit).filter (!p ·) ++ l.drop limit

/-- Nothing that can be done has `limit` items before it that cannot. -/
def Reachable (p : α → Bool) (limit : ℕ) (l : List α) : Prop :=
  ∀ pre x post, l = pre ++ x :: post → p x = true → (pre.filter (!p ·)).length < limit

theorem filter_drain_not : (drain p limit l).filter (!p ·) = l.filter (!p ·) := by
  unfold drain
  conv => rhs; rw [← List.take_append_drop limit l, List.filter_append]
  rw [List.filter_append, List.filter_filter]
  simp only [Bool.and_self]

/-- An item with `limit` items before it that cannot be done stays, with these before it. -/
theorem stuck_drain {pre post : List α} {x : α} (h : limit ≤ (pre.filter (!p ·)).length) :
    ∃ pre', drain p limit (pre ++ x :: post) = pre' ++ x :: post ∧
    limit ≤ (pre'.filter (!p ·)).length := by
  have hlength : limit ≤ pre.length := h.trans (List.length_filter_le _ _)
  refine ⟨drain p limit pre, ?_, ?_⟩
  · unfold drain
    rw [List.take_append_of_le_length hlength, List.drop_append_of_le_length hlength,
      List.append_assoc]
  · rw [filter_drain_not]
    exact h

/-- It is there after any number of batches. -/
theorem mem_of_stuck {run : ℕ → List α} (hstep : ∀ n, run (n + 1) = drain p limit (run n))
    {pre post : List α} {x : α}
    (hrun : run 0 = pre ++ x :: post) (h : limit ≤ (pre.filter (!p ·)).length) (n : ℕ) :
    x ∈ run n := by
  have hstays : ∃ pre', run n = pre' ++ x :: post ∧ limit ≤ (pre'.filter (!p ·)).length := by
    induction n with
    | zero => exact ⟨pre, hrun, h⟩
    | succ n ih =>
      obtain ⟨pre', hrun', hle⟩ := ih
      rw [hstep, hrun']
      exact stuck_drain hle
  obtain ⟨pre', hrun', -⟩ := hstays
  rw [hrun']
  exact List.mem_append_right _ List.mem_cons_self

theorem Reachable.drain (h : Reachable p limit l) : Reachable p limit (drain p limit l) := by
  intro pre x post heq hx
  unfold Backlog.drain at heq
  -- the item is one of the rest, since what stays of the batch cannot be done
  obtain ⟨rest, hpre, hdrop⟩ : ∃ rest, pre = (l.take limit).filter (!p ·) ++ rest ∧
      l.drop limit = rest ++ x :: post := by
    rcases List.append_eq_append_iff.1 heq with ⟨as, has, hedge⟩ | ⟨bs, hbs, hedge⟩
    · exact ⟨as, has, hedge⟩
    · cases bs with
      | nil =>
        rw [List.append_nil] at hbs
        exact ⟨[], by rw [hbs, List.append_nil], by simpa using hedge.symm⟩
      | cons b bs =>
        obtain ⟨rfl, -⟩ := List.cons.inj hedge
        have hmem : x ∈ (l.take limit).filter (!p ·) := by
          rw [hbs]
          exact List.mem_append_right _ List.mem_cons_self
        have hnot := (List.mem_filter.1 hmem).2
        rw [hx] at hnot
        cases hnot
  have hl : l = (l.take limit ++ rest) ++ x :: post := by
    rw [List.append_assoc, ← hdrop, List.take_append_drop]
  have hlt := h _ x post hl hx
  rw [hpre, List.filter_append, List.filter_filter]
  simp only [Bool.and_self]
  rwa [List.filter_append] at hlt

/-- A batch is not empty while something can be reached. -/
theorem batch_ne_nil (h : Reachable p limit l) {x : α} (hx : x ∈ l) (hp : p x = true) :
    batch p limit l ≠ [] := by
  intro hnil
  have hfirst : ∀ y ∈ l.take limit, p y = false := by
    intro y hy
    by_contra hnot
    have hmem : y ∈ batch p limit l := List.mem_filter.2 ⟨hy, by simpa using hnot⟩
    rw [hnil] at hmem
    cases hmem
  rw [← List.take_append_drop limit l, List.mem_append] at hx
  rcases hx with hx | hx
  · rw [hfirst x hx] at hp
    cases hp
  · obtain ⟨rest, post, hdrop⟩ := List.append_of_mem hx
    have hl : l = (l.take limit ++ rest) ++ x :: post := by
      rw [List.append_assoc, ← hdrop, List.take_append_drop]
    have hlt := h _ x post hl hp
    have hall : (l.take limit).filter (!p ·) = l.take limit := by
      refine List.filter_eq_self.2 fun y hy => ?_
      rw [hfirst y hy]
      rfl
    have hlength : limit < l.length := by
      by_contra hle
      rw [List.drop_eq_nil_of_le (not_lt.1 hle)] at hx
      cases hx
    rw [List.filter_append, hall, List.length_append, List.length_take] at hlt
    omega

theorem length_filter_drain (p : α → Bool) (limit : ℕ) (l : List α) :
    ((drain p limit l).filter p).length + (batch p limit l).length = (l.filter p).length := by
  have hnone : ((l.take limit).filter (!p ·)).filter p = [] := by
    rw [List.filter_filter]
    refine List.filter_eq_nil_iff.2 fun y _ => ?_
    cases p y <;> simp
  have hall : (l.filter p).length = (batch p limit l).length +
      ((l.drop limit).filter p).length := by
    conv => lhs; rw [← List.take_append_drop limit l, List.filter_append, List.length_append]
    rfl
  unfold drain
  rw [List.filter_append, hnone, hall, List.nil_append]
  omega

/-- Everything that can be done is done eventually exactly where it can be reached. -/
theorem eventually_iff (run : ℕ → List α) (hstep : ∀ n, run (n + 1) = drain p limit (run n)) :
    (∃ n, ∀ x ∈ run n, p x = false) ↔ Reachable p limit (run 0) := by
  constructor
  · rintro ⟨n, hdone⟩ pre x post hrun hx
    by_contra hstuck
    have hfalse := hdone x (mem_of_stuck hstep hrun (not_lt.1 hstuck) n)
    rw [hx] at hfalse
    cases hfalse
  · intro h
    generalize hcount : ((run 0).filter p).length = count
    induction count using Nat.strongRecOn generalizing run with
    | ind count ih =>
      by_cases hdone : ∀ x ∈ run 0, p x = false
      · exact ⟨0, hdone⟩
      · simp only [not_forall, Bool.not_eq_false] at hdone
        obtain ⟨x, hx, hp⟩ := hdone
        have hpos := List.length_pos_of_ne_nil (batch_ne_nil h hx hp)
        have hlength := length_filter_drain p limit (run 0)
        have hnext : ((run 1).filter p).length < count := by
          rw [hstep 0]
          omega
        obtain ⟨n, hn⟩ := @ih _ hnext (fun n => run (n + 1)) (fun n => hstep (n + 1))
          (by simpa only [Nat.zero_add, hstep 0] using h.drain) rfl
        exact ⟨n + 1, hn⟩

/-- The front of a backlog is worked off as if nothing came after it. -/
theorem drain_append (p : α → Bool) (limit : ℕ) (front back : List α) :
    ∃ back', drain p limit (front ++ back) = drain p limit front ++ back' ∧
    ∀ x ∈ back', x ∈ back := by
  rcases Nat.le_total limit front.length with h | h
  · refine ⟨back, ?_, fun _ hx => hx⟩
    unfold drain
    rw [List.take_append_of_le_length h, List.drop_append_of_le_length h, List.append_assoc]
  · refine ⟨drain p (limit - front.length) back, ?_, fun x hx => ?_⟩
    · unfold drain
      rw [List.take_append, List.drop_append, List.take_of_length_le h, List.drop_eq_nil_of_le h,
        List.filter_append, List.nil_append, List.append_nil, List.append_assoc]
    · rcases List.mem_append.1 hx with hx | hx
      · exact List.mem_of_mem_take (List.mem_filter.1 hx).1
      · exact List.mem_of_mem_drop hx

/-- The last item with a property. -/
theorem exists_last {q : α → Bool} {x : α} (hx : x ∈ l) (hq : q x = true) :
    ∃ pre y post, l = pre ++ y :: post ∧ q y = true ∧ ∀ z ∈ post, q z = false := by
  induction l generalizing x with
  | nil => cases hx
  | cons a l ih =>
    by_cases hlater : ∃ z ∈ l, q z = true
    · obtain ⟨z, hz, hqz⟩ := hlater
      obtain ⟨pre, y, post, rfl, hy, hpost⟩ := ih hz hqz
      exact ⟨a :: pre, y, post, rfl, hy, hpost⟩
    · have hnone : ∀ z ∈ l, q z = false := fun z hz => by
        by_contra hqz
        exact hlater ⟨z, hz, by simpa using hqz⟩
      rcases List.mem_cons.1 hx with rfl | hx
      · exact ⟨[], x, l, rfl, hq, hnone⟩
      · rw [hnone x hx] at hq
        cases hq

/-- The items of one kind that can be done are done eventually exactly where each of them can be
reached. -/
theorem eventually_only_iff {q : α → Bool} (run : ℕ → List α)
    (hstep : ∀ n, run (n + 1) = drain p limit (run n)) : (∃ n, ∀ x ∈ run n, (p x && q x) = false) ↔
      ∀ pre x post, run 0 = pre ++ x :: post → (p x && q x) = true →
      (pre.filter (!p ·)).length < limit := by
  constructor
  · rintro ⟨n, hdone⟩ pre x post hrun hx
    by_contra hstuck
    have hfalse := hdone x (mem_of_stuck hstep hrun (not_lt.1 hstuck) n)
    rw [hx] at hfalse
    cases hfalse
  · intro h
    by_cases hnone : ∀ x ∈ run 0, (p x && q x) = false
    · exact ⟨0, hnone⟩
    simp only [not_forall, Bool.not_eq_false] at hnone
    obtain ⟨x, hx, hpq⟩ := hnone
    obtain ⟨pre, y, post, hrun, hy, hpost⟩ := exists_last (q := fun z => p z && q z) hx hpq
    -- what comes before the last of them, and it, as a backlog of its own
    obtain ⟨front, hzero, hfront⟩ : ∃ front : ℕ → List α, front 0 = pre ++ [y] ∧
        ∀ n, front (n + 1) = drain p limit (front n) :=
      ⟨fun n => (drain p limit)^[n] (pre ++ [y]), rfl, fun n => Function.iterate_succ_apply' _ n _⟩
    have hfollows (n : ℕ) : ∃ back, run n = front n ++ back ∧ ∀ z ∈ back, (p z && q z) = false := by
      induction n with
      | zero => exact ⟨post, by rw [hrun, hzero, List.append_assoc]; rfl, hpost⟩
      | succ n ih =>
        obtain ⟨back, hback, hno⟩ := ih
        obtain ⟨back', hdrain, hsub⟩ := drain_append p limit (front n) back
        exact ⟨back', by rw [hstep, hback, hdrain, hfront], fun z hz => hno z (hsub z hz)⟩
    have hreach : Reachable p limit (front 0) := by
      rw [hzero]
      intro pre' z post' heq _
      have hlast := h pre y post hrun hy
      rcases List.append_eq_append_iff.1 heq with ⟨as, has, hedge⟩ | ⟨bs, hbs, hedge⟩
      · cases as with
        | nil => rwa [has, List.append_nil]
        | cons a as => simp at hedge
      · rw [hbs, List.filter_append, List.length_append] at hlast
        omega
    obtain ⟨n, hdone⟩ := (eventually_iff front hfront).2 hreach
    obtain ⟨back, hback, hno⟩ := hfollows n
    refine ⟨n, fun z hz => ?_⟩
    rw [hback] at hz
    rcases List.mem_append.1 hz with hz | hz
    · rw [hdone z hz]
      rfl
    · exact hno z hz

end Backlog
