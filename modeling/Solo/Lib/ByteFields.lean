import Mathlib.Algebra.Group.Nat.Defs

/-!
# Numbers in fixed-width fields of bytes

`ofLe` reads bytes as a number, the least significant first, `toLe` writes a number to so many
bytes. They are inverse on numbers that fit. The big-endian ones read and write in reverse.
-/

namespace ByteFields

def ofLe (bytes : List UInt8) : Nat := bytes.foldr (fun b n => b.toNat + 256 * n) 0

def toLe : Nat → Nat → List UInt8
  | 0, _ => []
  | width + 1, n => .ofNat (n % 256) :: toLe width (n / 256)

def ofBe (bytes : List UInt8) : Nat := ofLe bytes.reverse

def toBe (width n : Nat) : List UInt8 := (toLe width n).reverse

variable {width n : Nat} {bytes : List UInt8}

@[simp] theorem ofLe_nil : ofLe [] = 0 := rfl

@[simp] theorem ofLe_cons (b : UInt8) (bytes : List UInt8) :
    ofLe (b :: bytes) = b.toNat + 256 * ofLe bytes := rfl

@[simp] theorem length_toLe (width n : Nat) : (toLe width n).length = width := by
  induction width generalizing n with
  | zero => rfl
  | succ width ih => rw [toLe, List.length_cons, ih]

theorem ofLe_lt (bytes : List UInt8) : ofLe bytes < 256 ^ bytes.length := by
  induction bytes with
  | nil => simp
  | cons b bytes ih =>
    have hb : b.toNat < 256 := b.toNat_lt
    rw [ofLe_cons, List.length_cons, Nat.pow_succ]
    omega

theorem ofLe_toLe (h : n < 256 ^ width) : ofLe (toLe width n) = n := by
  induction width generalizing n with
  | zero =>
    rw [Nat.pow_zero] at h
    simp [toLe, Nat.lt_one_iff.1 h]
  | succ width ih =>
    have hdiv : n / 256 < 256 ^ width :=
      Nat.div_lt_of_lt_mul (by rwa [Nat.pow_succ, Nat.mul_comm] at h)
    rw [toLe, ofLe_cons, ih hdiv, UInt8.toNat_ofNat', Nat.mod_eq_of_lt (Nat.mod_lt _ (by omega))]
    exact Nat.mod_add_div n 256

theorem toLe_ofLe (bytes : List UInt8) : toLe bytes.length (ofLe bytes) = bytes := by
  induction bytes with
  | nil => rfl
  | cons b bytes ih =>
    have hb : b.toNat < 256 := b.toNat_lt
    have hmod : (b.toNat + 256 * ofLe bytes) % 256 = b.toNat := by omega
    have hdiv : (b.toNat + 256 * ofLe bytes) / 256 = ofLe bytes := by omega
    rw [List.length_cons, ofLe_cons, toLe, hmod, hdiv, ih, UInt8.ofNat_toNat]

/-- A field of the width has the bytes of its number. -/
theorem toLe_ofLe_of_length (h : bytes.length = width) : toLe width (ofLe bytes) = bytes := by
  rw [← h, toLe_ofLe]

@[simp] theorem length_toBe (width n : Nat) : (toBe width n).length = width := by simp [toBe]

theorem ofBe_lt (bytes : List UInt8) : ofBe bytes < 256 ^ bytes.length := by
  simpa [ofBe] using ofLe_lt bytes.reverse

theorem ofBe_toBe (h : n < 256 ^ width) : ofBe (toBe width n) = n := by
  rw [ofBe, toBe, List.reverse_reverse, ofLe_toLe h]

theorem toBe_ofBe_of_length (h : bytes.length = width) : toBe width (ofBe bytes) = bytes := by
  rw [toBe, ofBe, toLe_ofLe_of_length (by simpa using h), List.reverse_reverse]

end ByteFields
