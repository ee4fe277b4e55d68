import Mathlib.Data.List.Basic
import Solo.Lib.Slug

/-!
# Texts of IP addresses

The parser of the standard library's `IpAddr`, reading from the front of a text: four decimal
numbers, or groups of hexadecimal digits with at most one `::` and possibly an IPv4 address at the
end. It does not tell upper from lower case.
-/

namespace IpAddr

abbrev Reader (α : Type) := List Char → Option (α × List Char)

/-- The value of a letter or digit, as a digit. -/
def digitValue (c : Char) : Option ℕ :=
  if c.isDigit then some (c.toNat - '0'.toNat)
  else if 'a' ≤ c && c ≤ 'z' then some (c.toNat - 'a'.toNat + 10)
  else if 'A' ≤ c && c ≤ 'Z' then some (c.toNat - 'A'.toNat + 10)
  else none

/-- `char::to_digit`. -/
def toDigit (radix : ℕ) (c : Char) : Option ℕ := (digitValue c).filter (· < radix)

def givenChar (c : Char) : Reader Unit
  | [] => none
  | x :: cs => if x = c then some ((), cs) else none

/-- The digits at the front, and what follows them. -/
def digits (radix : ℕ) : List Char → List ℕ × List Char
  | [] => ([], [])
  | c :: cs =>
    match toDigit radix c with
    | some d => (d :: (digits radix cs).1, (digits radix cs).2)
    | none => ([], c :: cs)

/-- `read_number`: at most `maxDigits` digits, and a value below `bound`. -/
def number (radix maxDigits bound : ℕ) (allowZeroPrefix : Bool) : Reader ℕ := fun cs =>
  let (ds, rest) := digits radix cs
  let value := ds.foldl (fun n d => radix * n + d) 0
  if ds = [] || maxDigits < ds.length || bound ≤ value then none
  else if !allowZeroPrefix && ds.head? = some 0 && 1 < ds.length then none
  else some (value, rest)

/-- `read_separator`: the separator stands before all but the first item. -/
def separated {α : Type} (sep : Char) (index : ℕ) (item : Reader α) : Reader α := fun cs =>
  if index = 0 then item cs else (givenChar sep cs).bind fun x => item x.2

def ipv4 : Reader (ℕ × ℕ × ℕ × ℕ) := fun cs => do
  let octet := number 10 3 256 false
  let (a, cs) ← octet cs
  let (b, cs) ← separated '.' 1 octet cs
  let (c, cs) ← separated '.' 2 octet cs
  let (d, cs) ← separated '.' 3 octet cs
  return ((a, b, c, d), cs)

/-- `read_groups`: up to `n` groups, an IPv4 address standing for the last two of them. -/
def groups : ℕ → ℕ → List Char → (List ℕ × Bool) × List Char
  | 0, _, cs => (([], false), cs)
  | n + 1, index, cs =>
    match if 0 < n then separated ':' index ipv4 cs else none with
    | some ((a, b, c, d), rest) => (([256 * a + b, 256 * c + d], true), rest)
    | none =>
      match separated ':' index (number 16 4 65536 true) cs with
      | some (g, rest) =>
        let (gs, rest) := groups n (index + 1) rest
        ((g :: gs.1, gs.2), rest)
      | none => (([], false), cs)

def ipv6 : Reader (List ℕ) := fun cs =>
  let ((head, headIpv4), rest) := groups 8 0 cs
  if head.length = 8 then some (head, rest)
  else if headIpv4 then none
  else do
    let (_, rest) ← givenChar ':' rest
    let (_, rest) ← givenChar ':' rest
    let ((tail, _), rest) := groups (8 - (head.length + 1)) 0 rest
    return (head ++ List.replicate (8 - head.length - tail.length) 0 ++ tail, rest)

end IpAddr

inductive IpAddr where
  | v4 (octets : ℕ × ℕ × ℕ × ℕ)
  | v6 (segments : List ℕ)
  deriving DecidableEq

namespace IpAddr

/-- `str::parse::<IpAddr>`. -/
def parse (cs : List Char) : Option IpAddr :=
  match ((ipv4 cs).map fun x => (IpAddr.v4 x.1, x.2)).or
    ((ipv6 cs).map fun x => (IpAddr.v6 x.1, x.2)) with
  | some (addr, []) => some addr
  | _ => none

def isLoopback : IpAddr → Bool
  | .v4 (a, _, _, _) => a = 127
  | .v6 segments => segments = [0, 0, 0, 0, 0, 0, 0, 1]

example :
    (["127.0.0.1", "::1", "0:0::0:1", "127.0.0.1.nip.io", "128.0.0.1", "127.0.0.01",
      "::ffff:127.0.0.1"].map fun s =>
    (parse s.toList).any isLoopback) = [true, true, true, false, false, false, false] := by
      decide +kernel

/-! ### Case -/

/-- What is left to read, in lower case. -/
def lowerRest {α : Type} (x : α × List Char) : α × List Char := (x.1, x.2.map Char.toLower)

theorem digitValue_toLower (c : Char) : digitValue c.toLower = digitValue c := by
  cases hc : c.isAlphanum with
  | true =>
    have hall :=
      Text.forall_ascii (p := fun c => decide (digitValue c.toLower = digitValue c))
      (by decide +kernel) (Text.isAlphanum_toNat hc)
    exact of_decide_eq_true hall
  | false => rw [Text.toLower_of_not_isAlphanum hc]

theorem toLower_eq_iff {c d : Char} (hd : d.isAlphanum = false) : c.toLower = d ↔ c = d := by
  cases hc : c.isAlphanum with
  | true =>
    constructor
    · rintro rfl
      rw [Text.isAlphanum_toLower, hc] at hd
      cases hd
    · rintro rfl
      rw [hc] at hd
      cases hd
  | false => rw [Text.toLower_of_not_isAlphanum hc]

theorem givenChar_lower {c : Char} (hc : c.isAlphanum = false) (cs : List Char) :
    givenChar c (cs.map Char.toLower) = (givenChar c cs).map lowerRest := by
  cases cs with
  | nil => rfl
  | cons x cs =>
    rw [List.map_cons, givenChar, givenChar]
    by_cases hx : x = c
    · rw [if_pos hx, if_pos ((toLower_eq_iff hc).2 hx)]
      rfl
    · rw [if_neg hx, if_neg (mt (toLower_eq_iff hc).1 hx)]
      rfl

theorem digits_lower (radix : ℕ) (cs : List Char) :
    digits radix (cs.map Char.toLower) = lowerRest (digits radix cs) := by
  induction cs with
  | nil => rfl
  | cons c cs ih =>
    have hdigit : toDigit radix c.toLower = toDigit radix c := by
      rw [toDigit, digitValue_toLower, toDigit]
    rw [List.map_cons, digits, digits, hdigit, ih]
    cases toDigit radix c <;> rfl

theorem number_lower (radix maxDigits bound : ℕ) (allowZeroPrefix : Bool) (cs : List Char) :
    number radix maxDigits bound allowZeroPrefix (cs.map Char.toLower) =
      (number radix maxDigits bound allowZeroPrefix cs).map lowerRest := by
  unfold number
  rw [digits_lower]
  dsimp only [lowerRest]
  split_ifs <;> rfl

theorem separated_lower {α : Type} (sep : Char) (hsep : sep.isAlphanum = false) (index : ℕ)
    {item : Reader α}
    (hitem : ∀ cs, item (cs.map Char.toLower) = (item cs).map lowerRest) (cs : List Char) :
    separated sep index item (cs.map Char.toLower) =
    (separated sep index item cs).map lowerRest := by
  unfold separated
  split_ifs with hindex
  · exact hitem cs
  · rw [givenChar_lower hsep]
    cases givenChar sep cs with
    | none => rfl
    | some x => exact hitem x.2

theorem bind_lower {α β : Type} {o : Option (α × List Char)}
    {f : α × List Char → Option (β × List Char)}
    (hf : ∀ x, f (lowerRest x) = (f x).map lowerRest) :
    (o.map lowerRest).bind f = (o.bind f).map lowerRest := by
  cases o with
  | none => rfl
  | some x => exact hf x

theorem ipv4_lower (cs : List Char) : ipv4 (cs.map Char.toLower) = (ipv4 cs).map lowerRest := by
  have hoctet (i : ℕ) (cs : List Char) : separated '.' i (number 10 3 256 false)
      (cs.map Char.toLower) = (separated '.' i (number 10 3 256 false) cs).map lowerRest :=
    separated_lower '.' rfl i (number_lower 10 3 256 false) cs
  simp only [ipv4, Option.bind_eq_bind, Option.pure_def]
  rw [number_lower]
  refine bind_lower fun a => ?_
  dsimp only [lowerRest]
  rw [hoctet]
  refine bind_lower fun b => ?_
  dsimp only [lowerRest]
  rw [hoctet]
  refine bind_lower fun c => ?_
  dsimp only [lowerRest]
  rw [hoctet]
  exact bind_lower fun _ => rfl

theorem groups_lower (n index : ℕ) (cs : List Char) : groups n index (cs.map Char.toLower) =
    lowerRest (groups n index cs) := by
  induction n generalizing index cs with
  | zero => rfl
  | succ n ih =>
    have hgroup := separated_lower ':' rfl index (number_lower 16 4 65536 true) cs
    have hquad : (if 0 < n then separated ':' index ipv4 (cs.map Char.toLower) else none) =
        (if 0 < n then separated ':' index ipv4 cs else none).map lowerRest := by
      split_ifs
      · exact separated_lower ':' rfl index ipv4_lower cs
      · rfl
    rw [groups, groups, hquad, hgroup]
    cases (if 0 < n then separated ':' index ipv4 cs else none) with
    | some x => rfl
    | none =>
      dsimp only [Option.map_none]
      cases separated ':' index (number 16 4 65536 true) cs with
      | none => rfl
      | some x =>
        dsimp only [Option.map_some, lowerRest]
        rw [ih]
        rfl

theorem ipv6_lower (cs : List Char) : ipv6 (cs.map Char.toLower) = (ipv6 cs).map lowerRest := by
  obtain ⟨head, headIpv4, rest, hgroups⟩ :
      ∃ head headIpv4 rest, groups 8 0 cs = ((head, headIpv4), rest) :=
    ⟨_, _, _, rfl⟩
  have hlower : groups 8 0 (cs.map Char.toLower) = ((head, headIpv4), rest.map Char.toLower) := by
    rw [groups_lower, hgroups]
    rfl
  simp only [ipv6, Option.bind_eq_bind, Option.pure_def]
  rw [hlower, hgroups]
  dsimp only
  by_cases hfull : head.length = 8
  · rw [if_pos hfull, if_pos hfull]
    rfl
  rw [if_neg hfull, if_neg hfull]
  by_cases hipv4 : headIpv4 = true
  · rw [if_pos hipv4, if_pos hipv4]
    rfl
  rw [if_neg hipv4, if_neg hipv4, givenChar_lower rfl]
  refine bind_lower fun a => ?_
  dsimp only [lowerRest]
  rw [givenChar_lower rfl]
  refine bind_lower fun b => ?_
  dsimp only [lowerRest]
  rw [groups_lower]
  rfl

theorem parse_lower (cs : List Char) : parse (cs.map Char.toLower) = parse cs := by
  unfold parse
  rw [ipv4_lower, ipv6_lower]
  cases ipv4 cs with
  | some x =>
    obtain ⟨a, _ | ⟨c, rest⟩⟩ := x <;> rfl
  | none =>
    cases ipv6 cs with
    | none => rfl
    | some x => obtain ⟨a, _ | ⟨c, rest⟩⟩ := x <;> rfl

end IpAddr
