import Solo.Ingest.ChunkBytes

/-!
# The log sanitizer (`log_tail.rs`)

Nineteen passes over a line, one for each marker: the word `bearer`, ten keys and eight flags. A
pass looks for the next occurrence of its marker from a cursor on, copies what it steps over and
writes `[redacted]` for a value. Offsets count bytes; a slice off a character boundary panics
(`none`), and so does a loop that its fuel does not suffice for.
-/

namespace Solo

namespace LogTail

open Bytes (width len splitAt? slice? charIndices)

def redacted : List Char := "[redacted]".toList

/-! ### Strings -/

/-- `str::find` of a string that is not empty. -/
def findStr (pat : List Char) : List Char → Option ℕ
  | [] => none
  | c :: cs => if pat <+: c :: cs then some 0 else (findStr pat cs).map (width c + ·)

/-- The offset of the first character with a property. -/
def findChar (p : Char → Bool) (cs : List Char) : Option ℕ :=
  ((charIndices cs 0).find? fun x => p x.2).map (·.1)

def nextCharAt (input : List Char) (index : ℕ) : Option (Option (ℕ × Char)) :=
  (splitAt? input index).map fun cut => cut.2.head?.map fun ch => (index + width ch, ch)

def isBlank (ch : Char) : Bool := ch = ' ' || ch = '\t'

/-- The loop of `skip_horizontal_whitespace`. -/
def skipLoop (input : List Char) : ℕ → ℕ → Option ℕ
  | 0, _ => none
  | fuel + 1, cursor =>
    (nextCharAt input cursor).bind fun next =>
      next.elim (some cursor) fun p => if isBlank p.2 then skipLoop input fuel p.1 else some cursor

def skipHorizontalWhitespace (input : List Char) (index : ℕ) : Option ℕ :=
  skipLoop input (input.length + 1) index

def isKeyChar (ch : Char) : Bool := ch.isUpper || ch.isLower || ch.isDigit || ch = '_' || ch = '-'

def isKeyBoundaryBefore (input : List Char) (index : ℕ) : Option Bool :=
  (splitAt? input index).map fun cut => !cut.1.getLast?.any isKeyChar

def isQuote (ch : Char) : Bool := ch = '"' || ch = '\''

/-- The characters that end a value which is not quoted. -/
def isValueEnd (ch : Char) : Bool :=
  Text.isWhitespace ch ||
    ['&', '#', ',', ';', '"', '\'', '\x60', '<', '>', '|', '(', ')', '\x7b', '\x7d', '[',
      ']'].contains ch

def secretValueEnd (input : List Char) (start : ℕ) : Option ℕ :=
  (splitAt? input start).map fun cut => (findChar isValueEnd cut.2).elim (len input) (start + ·)

def secretValueRange (input : List Char) (start : ℕ) : Option (ℕ × ℕ) := do
  let valueStart ← skipHorizontalWhitespace input start
  let plain := (secretValueEnd input valueStart).map (valueStart, ·)
  (← nextCharAt input valueStart).elim plain fun p =>
    if isQuote p.2 then
      (splitAt? input p.1).map fun cut =>
        (p.1, (findChar (· = p.2) cut.2).elim (len input) (p.1 + ·))
    else plain

/-! ### The passes -/

/-- What a pass does at its cursor: copy the rest, copy up to an offset, or copy up to a value and
mask it. -/
inductive Move where
  | done
  | copy (stop : ℕ)
  | mask (start stop : ℕ)

/-- An empty value is stepped over. -/
def Move.ofRange (start stop : ℕ) : Move := if stop = start then .copy start else .mask start stop

/-- One round of the loops, before anything is written: `follow` is what its body does after a
marker. -/
def nextMove (input marker : List Char) (follow : ℕ → Option Move) (cursor : ℕ) : Option Move := do
  let lower ← splitAt? (Text.toAsciiLowercase input) cursor
  (findStr marker lower.2).elim (some .done) fun relative => do
    let start := cursor + relative
    let markerEnd := start + len marker
    if (← isKeyBoundaryBefore input start) then follow markerEnd else return .copy markerEnd

/-- The loop that the three kinds of passes share. -/
def redactLoop (input marker : List Char) (follow : ℕ → Option Move) : ℕ → List Char → ℕ →
    Option (List Char)
  | 0, _, _ => none
  | fuel + 1, out, cursor =>
    (nextMove input marker follow cursor).bind fun
      | .done => (splitAt? input cursor).map fun cut => out ++ cut.2
      | .copy stop => (slice? input cursor stop).bind fun piece =>
        redactLoop input marker follow fuel (out ++ piece) stop
      | .mask start stop =>
        (slice? input cursor start).bind fun piece =>
          redactLoop input marker follow fuel (out ++ piece ++ redacted) stop

def bearerMove (input : List Char) (markerEnd : ℕ) : Option Move := do
  (← nextCharAt input markerEnd).elim (some .done) fun p =>
    if Text.isWhitespace p.2 then do
      let valueStart ← skipHorizontalWhitespace input p.1
      let valueEnd ← secretValueEnd input valueStart
      return .ofRange valueStart valueEnd
    else some (.copy p.1)

def assignmentMove (input : List Char) (keyEnd : ℕ) : Option Move := do
  let sepIndex ← skipHorizontalWhitespace input keyEnd
  let sepIndex ← (← nextCharAt input sepIndex).elim (some sepIndex) fun p =>
    if isQuote p.2 then skipHorizontalWhitespace input p.1 else some sepIndex
  (← nextCharAt input sepIndex).elim (some .done) fun p =>
    if p.2 ≠ '=' ∧ p.2 ≠ ':' then some (.copy p.1)
    else (secretValueRange input p.1).map fun value => .ofRange value.1 value.2

def flagMove (input : List Char) (flagEnd : ℕ) : Option Move := do
  (← nextCharAt input flagEnd).elim (some .done) fun p =>
    if p.2 = '=' || Text.isWhitespace p.2 then do
      let rawValueStart ← skipHorizontalWhitespace input p.1
      let value ← secretValueRange input rawValueStart
      return .ofRange value.1 value.2
    else some (.copy p.1)

def redactWith (follow : List Char → ℕ → Option Move) (marker input : List Char) :
    Option (List Char) :=
  redactLoop input marker (follow input) (input.length + 1) [] 0

def redactBearerTokens (input : List Char) : Option (List Char) :=
  redactWith bearerMove "bearer".toList input

def redactAssignmentValues (input key : List Char) : Option (List Char) :=
  redactWith assignmentMove (Text.toAsciiLowercase key) input

def redactFlagValues (input flag : List Char) : Option (List Char) :=
  redactWith flagMove (Text.toAsciiLowercase flag) input

def keys : List (List Char) :=
  ["solo_passphrase".toList, "passphrase".toList, "password".toList, "bearer_token".toList,
    "access_token".toList,
    "refresh_token".toList, "api_key".toList, "apikey".toList, "token".toList, "secret".toList]

def flags : List (List Char) :=
  ["--bearer-token".toList, "--access-token".toList, "--refresh-token".toList, "--api-key".toList,
    "--token".toList, "--passphrase".toList, "--password".toList, "--secret".toList]

def sanitizeLogText (input : List Char) : Option (List Char) := do
  let text ← redactBearerTokens input
  let text ← keys.foldlM redactAssignmentValues text
  flags.foldlM redactFlagValues text

example : sanitizeLogText "Authorization: Bearer abc token='x y' --password=p".toList =
    some "Authorization: Bearer [redacted] token='[redacted]' --password=[redacted]".toList := by
      decide +kernel

end LogTail

end Solo
