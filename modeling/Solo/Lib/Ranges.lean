import Mathlib.Data.List.Pairwise
import Mathlib.Order.Nat
import Mathlib.Data.Nat.Notation

/-!
# Lists of ranges

Ranges that cover a stretch without a gap, ranges that tile it, and ranges whose ends rise. Each is
a walk over the list that carries the end of the range before, so that it splits at an `++`.
-/

namespace Ranges

/-- From `a` to `b` without a gap: each range starts where something was reached already. -/
def Covers : ℕ → List (ℕ × ℕ) → ℕ → Prop
  | a, [], b => a = b
  | a, w :: ws, b => w.1 ≤ a ∧ w.1 < w.2 ∧ Covers w.2 ws b

/-- From `a` to `b`, each range from the end of the one before. -/
def Tiles : ℕ → List (ℕ × ℕ) → ℕ → Prop
  | a, [], b => a = b
  | a, w :: ws, b => w.1 = a ∧ a < w.2 ∧ Tiles w.2 ws b

/-- Each range ends later than the one before. -/
def Rises : ℕ → List (ℕ × ℕ) → Prop
  | _, [] => True
  | a, w :: ws => a < w.2 ∧ Rises w.2 ws

variable {a b c : ℕ} {l l' : List (ℕ × ℕ)}

theorem covers_append : Covers a (l ++ l') c ↔ ∃ b, Covers a l b ∧ Covers b l' c := by
  induction l generalizing a with
  | nil => simp [Covers]
  | cons w l ih =>
    simp only [List.cons_append, Covers, ih]
    constructor
    · rintro ⟨h₁, h₂, b, hb, hc⟩
      exact ⟨b, ⟨h₁, h₂, hb⟩, hc⟩
    · rintro ⟨b, ⟨h₁, h₂, hb⟩, hc⟩
      exact ⟨h₁, h₂, b, hb, hc⟩

/-- What is reached depends on the ranges only. -/
theorem Covers.unique (h : Covers a l b) (h' : Covers a l c) : b = c := by
  induction l generalizing a with
  | nil => exact h.symm.trans h'
  | cons w l ih => exact ih h.2.2 h'.2.2

theorem Covers.head_le (h : Covers a l b) {w : ℕ × ℕ} (hw : w ∈ l.head?) : w.1 ≤ a := by
  cases l with
  | nil => cases hw
  | cons v l =>
    obtain rfl : v = w := Option.some.inj hw
    exact h.1

theorem Covers.last_eq (h : Covers a l b) {w : ℕ × ℕ} (hw : w ∈ l.getLast?) : w.2 = b := by
  obtain ⟨ys, rfl⟩ := List.getLast?_eq_some_iff.1 hw
  obtain ⟨_, -, -, -, hb⟩ := covers_append.1 h
  exact hb

theorem Covers.isChain (h : Covers a l b) : l.IsChain fun v w => w.1 ≤ v.2 := by
  induction l generalizing a with
  | nil => exact .nil
  | cons v l ih =>
    cases l with
    | nil => exact .singleton v
    | cons w l => exact .cons_cons h.2.2.1 (ih h.2.2)

theorem Covers.lt (h : Covers a l b) {w : ℕ × ℕ} (hw : w ∈ l) : w.1 < w.2 := by
  induction l generalizing a with
  | nil => cases hw
  | cons v l ih =>
    rcases List.mem_cons.1 hw with rfl | hw
    · exact h.2.1
    · exact ih h.2.2 hw

theorem tiles_append : Tiles a (l ++ l') c ↔ ∃ b, Tiles a l b ∧ Tiles b l' c := by
  induction l generalizing a with
  | nil => simp [Tiles]
  | cons w l ih =>
    simp only [List.cons_append, Tiles, ih]
    constructor
    · rintro ⟨h₁, h₂, b, hb, hc⟩
      exact ⟨b, ⟨h₁, h₂, hb⟩, hc⟩
    · rintro ⟨b, ⟨h₁, h₂, hb⟩, hc⟩
      exact ⟨h₁, h₂, b, hb, hc⟩

theorem Tiles.le (h : Tiles a l b) : a ≤ b := by
  induction l generalizing a with
  | nil => exact le_of_eq h
  | cons w l ih => exact h.2.1.le.trans (ih h.2.2)

/-- The ranges of a tiling lie in it. -/
theorem Tiles.mem (h : Tiles a l b) {w : ℕ × ℕ} (hw : w ∈ l) : a ≤ w.1 ∧ w.1 < w.2 ∧ w.2 ≤ b := by
  induction l generalizing a with
  | nil => cases hw
  | cons v l ih =>
    obtain ⟨hv, hlt, hrest⟩ := h
    rcases List.mem_cons.1 hw with rfl | hw
    · exact ⟨hv.ge, hv ▸ hlt, hrest.le⟩
    · obtain ⟨hle, hlt', hb⟩ := ih hrest hw
      exact ⟨hlt.le.trans hle, hlt', hb⟩

theorem rises_append (h : Covers a l b) : Rises a (l ++ l') ↔ Rises a l ∧ Rises b l' := by
  induction l generalizing a with
  | nil =>
    have hab : a = b := h
    simp [Rises, hab]
  | cons w l ih => simp only [List.cons_append, Rises, ih h.2.2, and_assoc]

theorem rises_iff_pairwise : Rises a l ↔ (∀ w ∈ l, a < w.2) ∧ l.Pairwise fun v w => v.2 < w.2 := by
  induction l generalizing a with
  | nil => simp [Rises]
  | cons w l ih =>
    rw [Rises, ih, List.pairwise_cons, List.forall_mem_cons]
    constructor
    · rintro ⟨hw, hl, hpair⟩
      exact ⟨⟨hw, fun v hv => hw.trans (hl v hv)⟩, hl, hpair⟩
    · rintro ⟨⟨hw, -⟩, hl, hpair⟩
      exact ⟨hw, hl, hpair⟩

end Ranges
