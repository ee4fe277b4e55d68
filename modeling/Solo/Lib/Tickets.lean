import Mathlib.Data.Nat.Basic
import Mathlib.Logic.Function.Basic

/-!
# Tickets

Parties draw consecutive numbers and hand them in one by one. `Tickets holds lo hi`: the numbers of
`(lo, hi]` are out, each with one party. A party that hands in the least number out keeps the
numbers that were handed in consecutive.
-/

structure Tickets {ι : Type*} (holds : ι → Option ℕ) (lo hi : ℕ) : Prop where
  le : lo ≤ hi
  range : ∀ i k, holds i = some k → lo < k ∧ k ≤ hi
  out : ∀ k, lo < k → k ≤ hi → ∃ i, holds i = some k
  one : ∀ i j k, holds i = some k → holds j = some k → i = j

namespace Tickets

variable {ι : Type*} {holds : ι → Option ℕ} {lo hi k : ℕ} {i : ι}

theorem empty (n : ℕ) : Tickets (fun _ : ι => none) n n where
  le := Nat.le_refl n
  range := by simp
  out := by omega
  one := by simp

/-- A number that nobody undercuts is the next one. -/
theorem least (h : Tickets holds lo hi) (hk : holds i = some k)
    (hmin : ∀ j k', holds j = some k' → k ≤ k') : k = lo + 1 := by
  obtain ⟨hlo, hhi⟩ := h.range i k hk
  obtain ⟨j, hj⟩ := h.out (lo + 1) (by omega) (by omega)
  have := hmin j _ hj
  omega

variable [DecidableEq ι]

theorem draw (h : Tickets holds lo hi) (hi' : holds i = none) :
    Tickets (Function.update holds i (some (hi + 1))) lo (hi + 1) where
  le := by have := h.le; omega
  range := by
    intro j k hj
    by_cases hij : j = i
    · subst hij
      rw [Function.update_self, Option.some_inj] at hj
      have := h.le
      omega
    · rw [Function.update_of_ne hij] at hj
      have := h.range j k hj
      omega
  out := by
    intro k hlo hk
    rcases Nat.lt_or_ge hi k with hgt | hle
    · exact ⟨i, by rw [Function.update_self, Option.some_inj]; omega⟩
    · obtain ⟨j, hj⟩ := h.out k hlo hle
      have hij : j ≠ i := by
        rintro rfl
        rw [hi'] at hj
        cases hj
      exact ⟨j, by rw [Function.update_of_ne hij, hj]⟩
  one := by
    intro j j' k hj hj'
    by_cases hij : j = i <;> by_cases hij' : j' = i
    · rw [hij, hij']
    · subst hij
      rw [Function.update_self, Option.some_inj] at hj
      rw [Function.update_of_ne hij'] at hj'
      have := h.range j' k hj'
      omega
    · subst hij'
      rw [Function.update_self, Option.some_inj] at hj'
      rw [Function.update_of_ne hij] at hj
      have := h.range j k hj
      omega
    · rw [Function.update_of_ne hij] at hj
      rw [Function.update_of_ne hij'] at hj'
      exact h.one j j' k hj hj'

theorem handIn (h : Tickets holds lo hi) (hk : holds i = some (lo + 1)) :
    Tickets (Function.update holds i none) (lo + 1) hi where
  le := (h.range i _ hk).2
  range := by
    intro j k hj
    by_cases hij : j = i
    · subst hij
      rw [Function.update_self] at hj
      cases hj
    · rw [Function.update_of_ne hij] at hj
      obtain ⟨hlo, hhi⟩ := h.range j k hj
      have hne : k ≠ lo + 1 := by
        rintro rfl
        exact hij (h.one j i _ hj hk)
      omega
  out := by
    intro k hlo hhi
    obtain ⟨j, hj⟩ := h.out k (by omega) hhi
    have hij : j ≠ i := by
      rintro rfl
      rw [hk, Option.some_inj] at hj
      omega
    exact ⟨j, by rw [Function.update_of_ne hij, hj]⟩
  one := by
    intro j j' k hj hj'
    by_cases hij : j = i
    · subst hij
      rw [Function.update_self] at hj
      cases hj
    · by_cases hij' : j' = i
      · subst hij'
        rw [Function.update_self] at hj'
        cases hj'
      · rw [Function.update_of_ne hij] at hj
        rw [Function.update_of_ne hij'] at hj'
        exact h.one j j' k hj hj'

/-- A party without a number stays without. -/
theorem keep (h : Tickets holds lo hi) (hi' : holds i = none) :
    Tickets (Function.update holds i none) lo hi := by
  have heq : Function.update holds i none = holds := by rw [← hi', Function.update_eq_self]
  rwa [heq]

end Tickets
