import Mathlib.Data.List.Basic

/-!
# Decoding UTF-8

`str::from_utf8`, character by character. What a character is read from does not depend on what
follows it, so a text that is cut between two characters is the beginning of the whole one.
-/

namespace Utf8

def isContinuation (b : ℕ) : Bool := 0x80 ≤ b && b < 0xC0

/-- The bits of `k` continuation bytes, after `acc`, and what follows them. -/
def continuations : ℕ → ℕ → List ℕ → Option (ℕ × List ℕ)
  | 0, acc, bs => some (acc, bs)
  | _ + 1, _, [] => none
  | k + 1, acc, b :: bs => if isContinuation b then continuations k (acc * 0x40 + (b - 0x80))
    bs else none

/-- A scalar value in its shortest form: not below `low`. -/
def scalar (low : ℕ) (x : ℕ × List ℕ) : Option (Char × List ℕ) :=
  if low ≤ x.1 ∧ (x.1 < 0xD800 ∨ 0xDFFF < x.1) ∧ x.1 ≤ 0x10FFFF then some (Char.ofNat x.1, x.2)
    else none

/-- The character at the front, and what follows it. -/
def decodeChar : List ℕ → Option (Char × List ℕ)
  | [] => none
  | b :: bs =>
    if b < 0x80 then some (Char.ofNat b, bs)
    else if b < 0xC0 then none
    else if b < 0xE0 then (continuations 1 (b - 0xC0) bs).bind (scalar 0x80)
    else if b < 0xF0 then (continuations 2 (b - 0xE0) bs).bind (scalar 0x800)
    else if b < 0xF8 then (continuations 3 (b - 0xF0) bs).bind (scalar 0x10000)
    else none

def decode : ℕ → List ℕ → Option (List Char)
  | _, [] => some []
  | 0, _ :: _ => none
  | n + 1, b :: bs => do
    let (c, rest) ← decodeChar (b :: bs)
    let cs ← decode n rest
    return c :: cs

/-- `str::from_utf8`. -/
def fromUtf8 (bs : List ℕ) : Option (List Char) := decode bs.length bs

theorem continuations_append {k acc : ℕ} {bs rest : List ℕ} {n : ℕ}
    (h : continuations k acc bs = some (n, rest)) :
    ∃ e, bs = e ++ rest ∧ ∀ t, continuations k acc (e ++ t) = some (n, t) := by
  induction k generalizing acc bs with
  | zero =>
    obtain ⟨rfl, rfl⟩ := Prod.mk.inj (Option.some.inj h)
    exact ⟨[], rfl, fun t => rfl⟩
  | succ k ih =>
    cases bs with
    | nil => cases h
    | cons b bs =>
      rw [continuations] at h
      split_ifs at h with hb
      obtain ⟨e, rfl, hread⟩ := ih h
      exact ⟨b :: e, rfl, fun t => by rw [List.cons_append, continuations, if_pos hb, hread]⟩

theorem scalar_append {k acc low : ℕ} {bs rest : List ℕ} {c : Char}
    (h : (continuations k acc bs).bind (scalar low) = some (c, rest)) :
    ∃ e, bs = e ++ rest ∧ ∀ t, (continuations k acc (e ++ t)).bind (scalar low) = some (c, t) := by
  obtain ⟨⟨n, rest'⟩, hn, hc⟩ := Option.bind_eq_some_iff.1 h
  unfold scalar at hc
  split_ifs at hc with hrange
  obtain ⟨rfl, rfl⟩ := Prod.mk.inj (Option.some.inj hc)
  obtain ⟨e, rfl, hread⟩ := continuations_append hn
  refine ⟨e, rfl, fun t => ?_⟩
  rw [hread, Option.bind_some, scalar, if_pos hrange]

theorem decodeChar_append {bs rest : List ℕ} {c : Char} (h : decodeChar bs = some (c, rest)) :
    ∃ b e, bs = b :: (e ++ rest) ∧ ∀ t, decodeChar (b :: (e ++ t)) = some (c, t) := by
  cases bs with
  | nil => cases h
  | cons b bs =>
    refine ⟨b, ?_⟩
    simp only [decodeChar] at h ⊢
    split_ifs at h ⊢
    · obtain ⟨rfl, rfl⟩ := Prod.mk.inj (Option.some.inj h)
      exact ⟨[], rfl, fun t => rfl⟩
    all_goals
      obtain ⟨e, rfl, hread⟩ := scalar_append h
      exact ⟨e, rfl, hread⟩

/-- A text that is cut between characters is the beginning of the whole one. -/
theorem decode_append {n m : ℕ} {p q : List ℕ} {t T : List Char} (hp : decode n p = some t)
    (hT : decode m (p ++ q) = some T) : t <+: T := by
  induction n generalizing m p t T with
  | zero =>
    cases p with
    | nil =>
      obtain rfl := Option.some.inj hp
      exact List.nil_prefix
    | cons b p => cases hp
  | succ n ih =>
    cases p with
    | nil =>
      obtain rfl := Option.some.inj hp
      exact List.nil_prefix
    | cons b p =>
      cases m with
      | zero => cases hT
      | succ m =>
        simp only [List.cons_append, decode, Option.bind_eq_bind, Option.bind_eq_some_iff,
          Option.pure_def, Option.some.injEq] at hp hT
        obtain ⟨⟨c, rest⟩, hc, cs, hcs, rfl⟩ := hp
        obtain ⟨⟨c', rest'⟩, hc', cs', hcs', rfl⟩ := hT
        obtain ⟨b', e, heq, hread⟩ := decodeChar_append hc
        obtain ⟨rfl, rfl⟩ := List.cons.inj heq
        have hsame := hread (rest ++ q)
        rw [← List.append_assoc, hc'] at hsame
        obtain ⟨rfl, rfl⟩ := Prod.mk.inj (Option.some.inj hsame)
        exact List.cons_prefix_cons.2 ⟨rfl, ih hcs hcs'⟩

theorem fromUtf8_append {p q : List ℕ} {t T : List Char} (hp : fromUtf8 p = some t)
    (hT : fromUtf8 (p ++ q) = some T) : t <+: T := decode_append hp hT

end Utf8
