/-!
# Binary32 helpers

`f32::max` and `f32::clamp`, on core's kernel-reducible `Float32`; multiplication commutes, and
comparison is transitive, where it holds at all.
-/

namespace Binary32

/-- `f32::max`: the other operand where one is no number. -/
def max (a b : Float32) : Float32 :=
  if a.isNaN then b else if b.isNaN then a else if a < b then b else a

def clamp (x lo hi : Float32) : Float32 := if x < lo then lo else if hi < x then hi else x

open Float.Model

/-- Multiplication looks at its operands alike. -/
theorem unpacked_mul_comm (spec : Format) (a b : UnpackedFloat) :
    a.mul spec b = b.mul spec a := by
  have hsign : ∀ s t : UnpackedFloat.Sign, s * t = t * s := by
    intro s t
    cases s <;> cases t <;> rfl
  cases a <;> cases b <;>
    first
    | rfl
    | exact congrArg UnpackedFloat.infinity (hsign _ _)
    | exact congrArg UnpackedFloat.zero (hsign _ _)
    | skip
  rename_i s m e _ s' m' e' _
  change UnpackedFloat.roundWithAccuracy spec (s * s') (m * m') (e + e') .exact =
    UnpackedFloat.roundWithAccuracy spec (s' * s) (m' * m) (e' + e) .exact
  rw [hsign, Nat.mul_comm, Int.add_comm]

protected theorem mul_comm (a b : Float32) : a * b = b * a := by
  show Float32.ofModel (.pack _) = Float32.ofModel (.pack _)
  rw [unpacked_mul_comm]

/-! ### The order -/

/-- The place of a number in the order: its class, then exponent and mantissa, mirrored below
zero. -/
def place : UnpackedFloat → Option (Int × Int × Int)
  | .notANumber => none
  | .infinity .negative => some (-2, 0, 0)
  | .finite .negative m e _ => some (-1, -e, -m)
  | .zero _ => some (0, 0, 0)
  | .finite .positive m e _ => some (1, e, m)
  | .infinity .positive => some (2, 0, 0)

def Before (x y : Int × Int × Int) : Prop :=
  x.1 < y.1 ∨ x.1 = y.1 ∧ (x.2.1 < y.2.1 ∨ x.2.1 = y.2.1 ∧ x.2.2 ≤ y.2.2)

theorem then_isLE {e e' : Int} {m m' : Nat} :
    ((compare e e').then (compare m m')).isLE = true ↔ e < e' ∨ e = e' ∧ m ≤ m' := by
  rcases Int.lt_trichotomy e e' with h | h | h
  · simp [Int.compare_eq_lt.2 h, h]
  · subst h; simp [Nat.isLE_compare]
  · simp [Int.compare_eq_gt.2 h]; omega

theorem then_swap_isLE {e e' : Int} {m m' : Nat} :
    ((compare e e').then (compare m m')).swap.isLE = true ↔ e' < e ∨ e = e' ∧ m' ≤ m := by
  rcases Int.lt_trichotomy e e' with h | h | h
  · simp [Int.compare_eq_lt.2 h]; omega
  · subst h; simp [Nat.isGE_compare]
  · simp [Int.compare_eq_gt.2 h, h]

theorem exists_before {x y : Int × Int × Int} :
    (∃ x' y', some x = some x' ∧ some y = some y' ∧ Before x' y') ↔ Before x y := by
  constructor
  · rintro ⟨x', y', hx, hy, h⟩
    rw [Option.some.inj hx, Option.some.inj hy]
    exact h
  · exact fun h => ⟨x, y, rfl, rfl, h⟩

theorem not_exists_left {b : Option (Int × Int × Int)} :
    ¬ ∃ x y, none = some x ∧ b = some y ∧ Before x y := by
  rintro ⟨x, y, hx, -⟩
  cases hx

theorem not_exists_right {a : Option (Int × Int × Int)} :
    ¬ ∃ x y, a = some x ∧ none = some y ∧ Before x y := by
  rintro ⟨x, y, -, hy, -⟩
  cases hy

theorem before_same {c : Int} {e e' m m' : Int} : Before (c, e, m) (c, e', m') ↔ e < e' ∨ e = e' ∧
    m ≤ m' := by
  simp [Before]

theorem unpacked_le_iff {a b : UnpackedFloat} :
    a.le b = true ↔ ∃ x y, place a = some x ∧ place b = some y ∧ Before x y := by
  rcases a with (_ | _) | _ | _ | ⟨(_ | _), m, e, h⟩ <;>
    rcases b with (_ | _) | _ | _ | ⟨(_ | _), m', e', h'⟩
  -- a NaN on either side
  all_goals try
    first
    | exact iff_of_false Bool.false_ne_true not_exists_left
    | exact iff_of_false Bool.false_ne_true not_exists_right
  all_goals refine Iff.trans ?_ exists_before.symm
  -- two classes, or one class of a single place
  all_goals try
    first
    | exact iff_of_true rfl (by unfold Before; dsimp only; omega)
    | exact iff_of_false Bool.false_ne_true (by unfold Before; dsimp only; omega)
  · rw [before_same]
    refine then_swap_isLE.trans ?_
    omega
  · rw [before_same]
    refine then_isLE.trans ?_
    omega

theorem Before.trans {x y z : Int × Int × Int} (hxy : Before x y) (hyz : Before y z) :
    Before x z := by
  unfold Before at *
  omega

theorem le_iff {a b : Float32} :
    a ≤ b ↔ ∃ x y, place a.toModel.unpack = some x ∧ place b.toModel.unpack = some y ∧
    Before x y := by
  rw [← unpacked_le_iff]
  exact decide_eq_true_iff

protected theorem le_trans {a b c : Float32} (hab : a ≤ b) (hbc : b ≤ c) : a ≤ c := by
  obtain ⟨x, y, hx, hy, hxy⟩ := le_iff.1 hab
  obtain ⟨y', z, hy', hz, hyz⟩ := le_iff.1 hbc
  obtain rfl := Option.some.inj (hy.symm.trans hy')
  exact le_iff.2 ⟨x, z, hx, hz, hxy.trans hyz⟩

/-- Of two numbers that are compared to a third, one is below the other. -/
theorem le_total_of_le {a b c : Float32} (ha : c ≤ a) (hb : c ≤ b) : a ≤ b ∨ b ≤ a := by
  obtain ⟨-, x, -, hx, -⟩ := le_iff.1 ha
  obtain ⟨-, y, -, hy, -⟩ := le_iff.1 hb
  by_cases hxy : Before x y
  · exact .inl (le_iff.2 ⟨x, y, hx, hy, hxy⟩)
  · refine .inr (le_iff.2 ⟨y, x, hy, hx, ?_⟩)
    unfold Before at *
    omega

theorem le_self_of_le {a b : Float32} (h : a ≤ b) : b ≤ b := by
  rcases le_total_of_le h h with hself | hself
  · exact hself
  · exact hself

end Binary32
