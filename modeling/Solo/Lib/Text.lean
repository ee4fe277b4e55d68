import Mathlib.Algebra.Group.Nat.Defs
import Mathlib.Data.List.Basic

/-!
# Strings as character lists

The functions of `str` and `char` that the quality gate uses, over `List Char`: Unicode white space
and trimming, ASCII case and classes, prefixes and substrings, UTF-8. `fnv1a64Hex` is the hash that
fingerprints are made with. Strings are taken apart with `String.toList`, so that closed instances
evaluate.
-/

namespace Text

/-- The `White_Space` property. -/
def isWhitespace (c : Char) : Bool :=
  let n := c.toNat
  (9 ≤ n && n ≤ 13) || n = 0x20 || n = 0x85 || n = 0xA0 || n = 0x1680 ||
  (0x2000 ≤ n && n ≤ 0x200A) ||
    n = 0x2028 || n = 0x2029 || n = 0x202F || n = 0x205F || n = 0x3000

/-- `trim_matches`. -/
def trimMatches (p : Char → Bool) (cs : List Char) : List Char :=
  ((cs.dropWhile p).reverse.dropWhile p).reverse

def trimList (cs : List Char) : List Char := trimMatches isWhitespace cs

def trim (s : String) : String := String.ofList (trimList s.toList)

/-- `s.trim().is_empty()`. -/
def isBlank (s : String) : Bool := (trimList s.toList).isEmpty

/-- `to_ascii_lowercase`. -/
def toAsciiLowercase (cs : List Char) : List Char := cs.map Char.toLower

def isAsciiHexdigit (c : Char) : Bool := c.isDigit || ('a' ≤ c && c ≤ 'f') || ('A' ≤ c && c ≤ 'F')

def startsWith (cs : List Char) (pre : String) : Bool := pre.toList.isPrefixOf cs

/-- `strip_prefix`. -/
def stripPrefix? (cs : List Char) (pre : String) : Option (List Char) :=
  if startsWith cs pre then some (cs.drop pre.toList.length) else none

/-- `str::contains` of a string. -/
def contains (cs : List Char) (needle : String) : Bool :=
  match cs with
  | [] => needle.toList.isEmpty
  | c :: rest => startsWith (c :: rest) needle || contains rest needle

def utf8Char (c : Char) : List Nat :=
  let n := c.toNat
  if n < 0x80 then [n]
  else if n < 0x800 then [0xC0 + n / 0x40, 0x80 + n % 0x40]
  else if n < 0x10000 then [0xE0 + n / 0x1000, 0x80 + n / 0x40 % 0x40, 0x80 + n % 0x40]
  else [0xF0 + n / 0x40000, 0x80 + n / 0x1000 % 0x40, 0x80 + n / 0x40 % 0x40, 0x80 + n % 0x40]

/-- `as_bytes`. -/
def utf8 (cs : List Char) : List Nat := cs.flatMap utf8Char

def hexDigit (n : Nat) : Char := "0123456789abcdef".toList.getD n '0'

/-- The lowercase hexadecimal digits of `n`, at least `width` of them for `n` below `16 ^ width`. -/
def hexDigits : Nat → Nat → List Char
  | 0, _ => []
  | width + 1, n => hexDigits width (n / 16) ++ [hexDigit (n % 16)]

/-- FNV-1a over the UTF-8 bytes, with 64-bit wrapping arithmetic. -/
def fnv1a64 (cs : List Char) : Nat :=
  (utf8 cs).foldl (fun hash b => (hash ^^^ b) * 0x100000001b3 % 2 ^ 64) 0xcbf29ce484222325

/-- `fnv1a64_hex`. -/
def fnv1a64Hex (s : String) : String := String.ofList (hexDigits 16 (fnv1a64 s.toList))

/-- One step of `slug`: letters and digits are kept in lower case, a run of separators becomes one
`sep`, anything else is dropped. -/
def slugStep (sep : Char) (isSep : Char → Bool) (st : List Char × Bool) (c : Char) :
    List Char × Bool :=
  if c.isAlphanum then (st.1 ++ [c.toLower], false)
  else if isSep c && !st.2 && !st.1.isEmpty then (st.1 ++ [sep], true)
  else st

/-- Words joined by `sep`, without a leading or trailing one. -/
def slug (sep : Char) (isSep : Char → Bool) (cs : List Char) : List Char :=
  let out := (cs.foldl (slugStep sep isSep) ([], false)).1
  (out.reverse.dropWhile (· = sep)).reverse

/-- `{:?}` of a string; characters outside ASCII are taken to be printable. -/
def debugChar (c : Char) : List Char :=
  if c = '"' then "\\\"".toList
  else if c = '\\' then "\\\\".toList
  else if c = '\n' then "\\n".toList
  else if c = '\r' then "\\r".toList
  else if c = '\t' then "\\t".toList
  else if c.toNat = 0 then "\\0".toList
  else if c.toNat < 0x20 || c.toNat = 0x7F then
    "\\u\x7b".toList ++ (hexDigits 2 c.toNat).dropWhile (· = '0') ++ "\x7d".toList
  else [c]

def debug (s : String) : String := "\"" ++ String.ofList (s.toList.flatMap debugChar) ++ "\""

/-- `{:.2}` of a binary32: nearest, ties to even, on the exact value. -/
def fixed2 (x : Float32) : String :=
  let bits := x.toBits.toNat
  let expo := bits / 2 ^ 23 % 256
  let frac := bits % 2 ^ 23
  let sign := if bits / 2 ^ 31 = 1 then "-" else ""
  if expo = 255 then if frac = 0 then sign ++ "inf" else "NaN"
  else
    let units := if expo = 0 then frac else (frac + 2 ^ 23) * 2 ^ (expo - 1)
    let q := units * 100 / 2 ^ 149
    let r := units * 100 % 2 ^ 149
    let n := if 2 * r > 2 ^ 149 || (2 * r = 2 ^ 149 && q % 2 = 1) then q + 1 else q
    sign ++ s!"{n / 100}.{n / 10 % 10}{n % 10}"

example : fixed2 0.85 = "0.85" := by decide +kernel

end Text
