import Mathlib.Data.List.Basic
import Mathlib.Data.List.TakeWhile

/-!
# JSON texts

Values, and a parser over `List Char`. The parser is `serde_json`'s: a depth limit, members kept by
key with the last one of a key, lone surrogates refused. What a number stands for is a parameter.
-/

/-- A JSON value over a type of numbers. Members are in the order of their keys. -/
inductive Json (N : Type) where
  | null
  | bool (b : Bool)
  | num (n : N)
  | str (s : List Char)
  | arr (items : List (Json N))
  | obj (fields : List (List Char × Json N))

/-- `serde_json::Number`, over a type of floats. -/
inductive Json.Number (F : Type) where
  | posInt (n : ℕ)
  | negInt (n : ℤ)
  | float (x : F)

namespace Json

variable {N : Type}

abbrev Fields (N : Type) := List (List Char × Json N)

/-- The order of texts by their characters. -/
def keyLt : List Char → List Char → Bool
  | [], [] => false
  | [], _ :: _ => true
  | _ :: _, [] => false
  | a :: as, b :: bs => a.toNat < b.toNat || (a = b && keyLt as bs)

/-- `Map::insert`: a member takes the place of one with its key. -/
def insertField (key : List Char) (value : Json N) : Fields N → Fields N
  | [] => [(key, value)]
  | (k, v) :: fields =>
    if keyLt key k then (key, value) :: (k, v) :: fields
    else if key = k then (key, value) :: fields
    else (k, v) :: insertField key value fields

/-- The members of an object text, taken in from left to right. -/
def build (members : Fields N) : Fields N :=
  members.foldl (fun fields kv => insertField kv.1 kv.2 fields) []

/-- `Value::get` of a member. -/
def get (v : Json N) (key : String) : Option (Json N) :=
  match v with
  | .obj fields => fields.lookup key.toList
  | _ => none

def asStr : Json N → Option (List Char)
  | .str s => some s
  | _ => none

def asArray : Json N → Option (List (Json N))
  | .arr items => some items
  | _ => none

def asObject : Json N → Option (Fields N)
  | .obj fields => some fields
  | _ => none

def isNum : Json N → Bool
  | .num _ => true
  | _ => false

/-! ### Reading -/

def isWs (c : Char) : Bool := c = ' ' || c = '\n' || c = '\t' || c = '\r'

def skipWs (cs : List Char) : List Char := cs.dropWhile isWs

/-- The character that must come next, after blanks. -/
def expect (c : Char) (cs : List Char) : Option (List Char) :=
  match skipWs cs with
  | [] => none
  | x :: cs => if x = c then some cs else none

def hexValue (c : Char) : Option ℕ :=
  if c.isDigit then some (c.toNat - '0'.toNat)
  else if 'a' ≤ c && c ≤ 'f' then some (c.toNat - 'a'.toNat + 10)
  else if 'A' ≤ c && c ≤ 'F' then some (c.toNat - 'A'.toNat + 10)
  else none

def hex4 : List Char → Option (ℕ × List Char)
  | a :: b :: c :: d :: rest => do
    let a ← hexValue a
    let b ← hexValue b
    let c ← hexValue c
    let d ← hexValue d
    return (((a * 16 + b) * 16 + c) * 16 + d, rest)
  | _ => none

def simpleEscape (c : Char) : Option Char :=
  match c with
  | '"' => some '"'
  | '\\' => some '\\'
  | '/' => some '/'
  | 'b' => some '\x08'
  | 'f' => some '\x0c'
  | 'n' => some '\n'
  | 'r' => some '\r'
  | 't' => some '\t'
  | _ => none

/-- The second half of a surrogate pair, after the first half `n`. -/
def lowSurrogate (n : ℕ) : List Char → Option (Char × List Char)
  | '\\' :: 'u' :: cs => do
    let (m, cs) ← hex4 cs
    if 0xDC00 ≤ m ∧
      m < 0xE000 then some (Char.ofNat (0x10000 + (n - 0xD800) * 0x400 + (m - 0xDC00)), cs)
      else none
  | _ => none

/-- What stands after a backslash. -/
def readEscape : List Char → Option (Char × List Char)
  | [] => none
  | e :: cs =>
    if e = 'u' then do
      let (n, cs) ← hex4 cs
      if 0xD800 ≤ n ∧ n < 0xDC00 then lowSurrogate n cs
      else if 0xDC00 ≤ n ∧ n < 0xE000 then none
      else some (Char.ofNat n, cs)
    else (simpleEscape e).map fun c => (c, cs)

/-- A string, after its opening quote. -/
def readString : ℕ → List Char → Option (List Char × List Char)
  | 0, _ => none
  | _ + 1, [] => none
  | n + 1, c :: cs =>
    if c = '"' then some ([], cs)
    else if c = '\\' then do
      let (x, cs) ← readEscape cs
      let (s, cs) ← readString n cs
      return (x :: s, cs)
    else if c.toNat < 0x20 then none
    else do
      let (s, cs) ← readString n cs
      return (c :: s, cs)

def isNumberChar (c : Char) : Bool :=
  c.isDigit || c = '-' || c = '+' || c = '.' || c = 'e' || c = 'E'

/-- Nothing, or an exponent. -/
def isExponent : List Char → Bool
  | [] => true
  | e :: cs =>
    let digits := if cs.head? = some '+' || cs.head? = some '-' then cs.tail else cs
    (e = 'e' || e = 'E') && digits ≠ [] && digits.all Char.isDigit

/-- Nothing, or a fraction, and an exponent. -/
def isFraction : List Char → Bool
  | '.' :: cs => cs.takeWhile Char.isDigit ≠ [] && isExponent (cs.dropWhile Char.isDigit)
  | cs => isExponent cs

/-- The number texts: no leading zeros, digits around a point, digits in an exponent. -/
def isNumber (lexeme : List Char) : Bool :=
  let cs := if lexeme.head? = some '-' then lexeme.tail else lexeme
  let digits := cs.takeWhile Char.isDigit
  digits ≠ [] && (digits.head? ≠ some '0' || digits.length = 1) &&
  isFraction (cs.dropWhile Char.isDigit)

/-- `ofLexeme` gives the value of a number text, unless it is out of range. A number ends where no
character of numbers follows; what may follow one is none of these. -/
def readNumber (ofLexeme : List Char → Option N) (cs : List Char) : Option (N × List Char) :=
  let lexeme := cs.takeWhile isNumberChar
  if isNumber lexeme then (ofLexeme lexeme).map fun n => (n, cs.dropWhile isNumberChar) else none

/-- `null`, `true` and `false`. -/
def readLiteral (cs : List Char) : Option (Json N × List Char) :=
  if "null".toList.isPrefixOf cs then some (.null, cs.drop 4)
  else if "true".toList.isPrefixOf cs then some (.bool true, cs.drop 4)
  else if "false".toList.isPrefixOf cs then some (.bool false, cs.drop 5)
  else none

/-- The key of a member, with its colon. -/
def readKey (cs : List Char) : Option (List Char × List Char) := do
  let cs ← expect '"' cs
  let (key, cs) ← readString (cs.length + 1) cs
  let cs ← expect ':' cs
  return (key, cs)

section

variable (ofLexeme : List Char → Option N)

mutual

/-- A value and what follows it, with fuel, and with the depth that is left. -/
def readValue : ℕ → ℕ → List Char → Option (Json N × List Char)
  | 0, _, _ => none
  | n + 1, depth, cs =>
    match skipWs cs with
    | [] => none
    | c :: cs =>
      if c = '"' then (readString (cs.length + 1) cs).map fun x => (.str x.1, x.2)
      else if c = '[' then
        if depth ≤ 1 then none
        else
          match expect ']' cs with
          | some cs => some (.arr [], cs)
          | none => (readElems n (depth - 1) cs).map fun x => (.arr x.1, x.2)
      else if c = '{' then
        if depth ≤ 1 then none
        else
          match expect '}' cs with
          | some cs => some (.obj [], cs)
          | none => (readFields n (depth - 1) cs).map fun x => (.obj (build x.1), x.2)
      else if c = '-' || c.isDigit then (readNumber ofLexeme (c :: cs)).map fun x => (.num x.1, x.2)
      else readLiteral (c :: cs)

/-- The elements of an array, up to its bracket. -/
def readElems : ℕ → ℕ → List Char → Option (List (Json N) × List Char)
  | 0, _, _ => none
  | n + 1, depth, cs => do
    let (v, cs) ← readValue n depth cs
    match expect ',' cs with
    | some cs => (readElems n depth cs).map fun x => (v :: x.1, x.2)
    | none => (expect ']' cs).map fun cs => ([v], cs)

/-- The members of an object, up to its brace. -/
def readFields : ℕ → ℕ → List Char → Option (Fields N × List Char)
  | 0, _, _ => none
  | n + 1, depth, cs => do
    let (key, cs) ← readKey cs
    let (v, cs) ← readValue n depth cs
    match expect ',' cs with
    | some cs => (readFields n depth cs).map fun x => ((key, v) :: x.1, x.2)
    | none => (expect '}' cs).map fun cs => ([(key, v)], cs)

end

/-- `serde_json::from_str`. -/
def parse (cs : List Char) : Option (Json N) := do
  let (v, rest) ← readValue ofLexeme (2 * cs.length + 2) 128 cs
  if (skipWs rest).isEmpty then some v else none

end

end Json
