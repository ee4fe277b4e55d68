import Mathlib.Data.List.Basic

/-!
# Base64 and UTF-16

The standard alphabet with canonical padding, and UTF-16 in little endian, over numbers for bytes
and code units. What is written is read back.
-/

namespace Base64

def digit (n : ℕ) : Char :=
  if n < 26 then Char.ofNat (65 + n)
  else if n < 52 then Char.ofNat (71 + n)
  else if n < 62 then Char.ofNat (n - 4)
  else if n = 62 then '+'
  else '/'

def digitValue (c : Char) : Option ℕ :=
  if 'A' ≤ c ∧ c ≤ 'Z' then some (c.toNat - 65)
  else if 'a' ≤ c ∧ c ≤ 'z' then some (c.toNat - 71)
  else if c.isDigit then some (c.toNat + 4)
  else if c = '+' then some 62
  else if c = '/' then some 63
  else none

def encode : List ℕ → List Char
  | [] => []
  | [a] => [digit (a / 4), digit (a % 4 * 16), '=', '=']
  | [a, b] => [digit (a / 4), digit (a % 4 * 16 + b / 16), digit (b % 16 * 4), '=']
  | a :: b :: c :: bytes =>
    digit (a / 4) :: digit (a % 4 * 16 + b / 16) :: digit (b % 16 * 4 + c / 64) :: digit (c % 64) ::
      encode bytes

/-- The last four characters, when they are padded; the bits that are left over are zero. -/
def decodePadded (w x y : Char) : Option (List ℕ) := do
  let w ← digitValue w
  let x ← digitValue x
  if y = '=' then
    if x % 16 = 0 then some [w * 4 + x / 16] else none
  else
    let y ← digitValue y
    if y % 4 = 0 then some [w * 4 + x / 16, x % 16 * 16 + y / 4] else none

def decode : List Char → Option (List ℕ)
  | [] => some []
  | w :: x :: y :: z :: rest =>
    if rest = [] ∧ z = '=' then decodePadded w x y
    else do
      let w ← digitValue w
      let x ← digitValue x
      let y ← digitValue y
      let z ← digitValue z
      let bytes ← decode rest
      return (w * 4 + x / 16) :: (x % 16 * 16 + y / 4) :: (y % 4 * 64 + z) :: bytes
  | _ => none

theorem digitValue_digit {n : ℕ} (h : n < 64) : digitValue (digit n) = some n := by
  have hall : ∀ n < 64, digitValue (digit n) = some n := by decide
  exact hall n h

theorem digit_ne_pad {n : ℕ} (h : n < 64) : digit n ≠ '=' := by
  have hall : ∀ n < 64, digit n ≠ '=' := by decide
  exact hall n h

theorem decode_encode {bytes : List ℕ} (h : ∀ b ∈ bytes, b < 256) :
    decode (encode bytes) = some bytes := by
  fun_induction encode bytes with
  | case1 => rfl
  | case2 a =>
    have ha : a < 256 := h a List.mem_cons_self
    have hw : digitValue (digit (a / 4)) = some (a / 4) := digitValue_digit (by omega)
    have hx : digitValue (digit (a % 4 * 16)) = some (a % 4 * 16) := digitValue_digit (by omega)
    rw [decode, if_pos ⟨rfl, rfl⟩, decodePadded, hw, hx, Option.bind_eq_bind, Option.bind_some,
      Option.bind_some, if_pos rfl, if_pos (by omega)]
    have heq : a / 4 * 4 + a % 4 * 16 / 16 = a := by omega
    rw [heq]
  | case3 a b =>
    have ha : a < 256 := h a List.mem_cons_self
    have hb : b < 256 := h b (List.mem_cons_of_mem _ List.mem_cons_self)
    have hw : digitValue (digit (a / 4)) = some (a / 4) := digitValue_digit (by omega)
    have hx : digitValue (digit (a % 4 * 16 + b / 16)) = some (a % 4 * 16 + b / 16) :=
      digitValue_digit (by omega)
    have hy : digitValue (digit (b % 16 * 4)) = some (b % 16 * 4) := digitValue_digit (by omega)
    rw [decode, if_pos ⟨rfl, rfl⟩, decodePadded, hw, hx, Option.bind_eq_bind, Option.bind_some,
      Option.bind_some, if_neg (digit_ne_pad (by omega)), hy, Option.bind_some, if_pos (by omega)]
    have hfirst : a / 4 * 4 + (a % 4 * 16 + b / 16) / 16 = a := by omega
    have hsecond : (a % 4 * 16 + b / 16) % 16 * 16 + b % 16 * 4 / 4 = b := by omega
    rw [hfirst, hsecond]
  | case4 a b c bytes ih =>
    have ha : a < 256 := h a List.mem_cons_self
    have hb : b < 256 := h b (List.mem_cons_of_mem _ List.mem_cons_self)
    have hc : c < 256 := h c (List.mem_cons_of_mem _ (List.mem_cons_of_mem _ List.mem_cons_self))
    have hw : digitValue (digit (a / 4)) = some (a / 4) := digitValue_digit (by omega)
    have hx : digitValue (digit (a % 4 * 16 + b / 16)) = some (a % 4 * 16 + b / 16) :=
      digitValue_digit (by omega)
    have hy : digitValue (digit (b % 16 * 4 + c / 64)) = some (b % 16 * 4 + c / 64) :=
      digitValue_digit (by omega)
    have hz : digitValue (digit (c % 64)) = some (c % 64) := digitValue_digit (by omega)
    have hnot : ¬(encode bytes = [] ∧ digit (c % 64) = '=') :=
      fun hpad => digit_ne_pad (by omega) hpad.2
    have hrest : decode (encode bytes) = some bytes := ih fun x hx =>
      h x (List.mem_cons_of_mem _ (List.mem_cons_of_mem _ (List.mem_cons_of_mem _ hx)))
    rw [decode, if_neg hnot, hw, hx, hy, hz, hrest]
    have hfirst : a / 4 * 4 + (a % 4 * 16 + b / 16) / 16 = a := by omega
    have hsecond : (a % 4 * 16 + b / 16) % 16 * 16 + (b % 16 * 4 + c / 64) / 4 = b := by omega
    have hthird : (b % 16 * 4 + c / 64) % 4 * 64 + c % 64 = c := by omega
    simp only [Option.bind_eq_bind, Option.bind_some, Option.pure_def, hfirst, hsecond, hthird]

end Base64

namespace Utf16

def encodeChar (c : Char) : List ℕ :=
  if c.toNat < 0x10000 then [c.toNat]
  else [0xD800 + (c.toNat - 0x10000) / 0x400, 0xDC00 + (c.toNat - 0x10000) % 0x400]

/-- `encode_utf16`. -/
def encode (cs : List Char) : List ℕ := cs.flatMap encodeChar

/-- `String::from_utf16`: a surrogate without its other half is refused. -/
def decode : List ℕ → Option (List Char)
  | [] => some []
  | [u] => if u < 0xD800 ∨ 0xE000 ≤ u then some [Char.ofNat u] else none
  | u :: v :: units =>
    if u < 0xD800 ∨ 0xE000 ≤ u then (decode (v :: units)).map (Char.ofNat u :: ·)
    else if u < 0xDC00 ∧ 0xDC00 ≤ v ∧ v < 0xE000 then
      (decode units).map (Char.ofNat (0x10000 + (u - 0xD800) * 0x400 + (v - 0xDC00)) :: ·)
    else none

/-- `u16::to_le_bytes`. -/
def toLeBytes (units : List ℕ) : List ℕ := units.flatMap fun u => [u % 256, u / 256]

/-- `chunks_exact(2)` with `u16::from_le_bytes`, for an even number of bytes. -/
def fromLeBytes : List ℕ → Option (List ℕ)
  | [] => some []
  | [_] => none
  | a :: b :: bytes => (fromLeBytes bytes).map ((a + b * 256) :: ·)

theorem char_range (c : Char) : c.toNat < 0xD800 ∨ 0xE000 ≤ c.toNat ∧ c.toNat < 0x110000 := by
  rcases c.valid with h | ⟨h, h'⟩
  · exact .inl h
  · exact .inr ⟨h, h'⟩

theorem ofNat_toNat (c : Char) : Char.ofNat c.toNat = c := Char.ofNat_toNat c

theorem decode_cons {u : ℕ} (h : u < 0xD800 ∨ 0xE000 ≤ u) (units : List ℕ) :
    decode (u :: units) = (decode units).map (Char.ofNat u :: ·) := by
  cases units with
  | nil => exact if_pos h
  | cons v units => rw [decode, if_pos h]

theorem decode_encodeChar (c : Char) (units : List ℕ) :
    decode (encodeChar c ++ units) = (decode units).map (c :: ·) := by
  unfold encodeChar
  split_ifs with h
  · have hrange : c.toNat < 0xD800 ∨ 0xE000 ≤ c.toNat := (char_range c).imp_right And.left
    rw [List.singleton_append, decode_cons hrange, ofNat_toNat]
  · have hlt : c.toNat < 0x110000 := by rcases char_range c with h' | h' <;> omega
    have hfirst :
        ¬(0xD800 + (c.toNat - 0x10000) / 0x400 < 0xD800 ∨
          0xE000 ≤ 0xD800 + (c.toNat - 0x10000) / 0x400) := by omega
    have hpair : 0xD800 + (c.toNat - 0x10000) / 0x400 < 0xDC00 ∧
        0xDC00 ≤ 0xDC00 + (c.toNat - 0x10000) % 0x400 ∧
        0xDC00 + (c.toNat - 0x10000) % 0x400 < 0xE000 := by omega
    have hvalue : 0x10000 + (0xD800 + (c.toNat - 0x10000) / 0x400 - 0xD800) * 0x400 +
        (0xDC00 + (c.toNat - 0x10000) % 0x400 - 0xDC00) = c.toNat := by omega
    rw [List.cons_append, List.singleton_append, decode, if_neg hfirst, if_pos hpair, hvalue,
      ofNat_toNat]

theorem decode_encode (cs : List Char) : decode (encode cs) = some cs := by
  induction cs with
  | nil => rfl
  | cons c cs ih =>
    have hcons : encode (c :: cs) = encodeChar c ++ encode cs := List.flatMap_cons
    rw [hcons, decode_encodeChar, ih, Option.map_some]

theorem encode_lt {cs : List Char} : ∀ u ∈ encode cs, u < 0x10000 := by
  intro u hu
  obtain ⟨c, -, hc⟩ := List.mem_flatMap.1 hu
  unfold encodeChar at hc
  split_ifs at hc with h
  · exact List.mem_singleton.1 hc ▸ h
  · have hlt : c.toNat < 0x110000 := by rcases char_range c with h' | h' <;> omega
    rcases List.mem_cons.1 hc with hu | hc
    · omega
    · have hu := List.mem_singleton.1 hc
      omega

theorem fromLeBytes_toLeBytes (units : List ℕ) : fromLeBytes (toLeBytes units) = some units := by
  induction units with
  | nil => rfl
  | cons u units ih =>
    have hcons : toLeBytes (u :: units) = u % 256 :: u / 256 :: toLeBytes units := List.flatMap_cons
    rw [hcons, fromLeBytes, ih, Option.map_some, Nat.mod_add_div']

theorem toLeBytes_lt {units : List ℕ} (h : ∀ u ∈ units, u < 0x10000) :
    ∀ b ∈ toLeBytes units, b < 256 := by
  intro b hb
  obtain ⟨u, hu, hb⟩ := List.mem_flatMap.1 hb
  have hlt : u < 0x10000 := h u hu
  rcases List.mem_cons.1 hb with rfl | hb
  · exact Nat.mod_lt _ (by decide)
  · obtain rfl := List.mem_singleton.1 hb
    omega

end Utf16
