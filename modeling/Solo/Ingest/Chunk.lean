import Solo.Ingest.Redaction
import Solo.Lib.Text
import Solo.Store.Writer

/-!
# Cutting a document (`document/chunk.rs`, the ingest handler of `writer.rs`)

`chunkWindows` cuts a text at paragraph ends, and inside a paragraph that is too long at the ends of
sentences. The source counts in bytes on character boundaries; here positions count characters, and
only the offsets of a stored chunk are bytes. Each chunk is redacted after it is cut out; the title
comes from the text as it was parsed.
-/

namespace Solo

open Letters

structure ChunkConfig where
  targetTokens : ℕ
  overlapTokens : ℕ
  target_lt : targetTokens < 2 ^ 32
  overlap_lt : overlapTokens < 2 ^ 32

structure ChunkSpec (α : Type) where
  content : List α
  startOffset : ℕ
  endOffset : ℕ
  tokenCount : ℕ

def saturatingU32 (n : ℕ) : ℕ := min n (2 ^ 32 - 1)

/-- `approx_token_count` of a text of `chars` characters. -/
def approxTokenCount (chars : ℕ) : ℕ := saturatingU32 (chars / 4)

/-! ### Paragraphs and windows -/

/-- `split_paragraphs`, with the text from position `i` on; `start` is where the current paragraph
starts. -/
def splitParagraphs (cs : List Char) (start i : ℕ) : List (ℕ × ℕ) :=
  match cs with
  | [] => if start < i then [(start, i)] else []
  | [_] => [(start, i + 1)]
  | a :: b :: rest =>
    if a = '\n' ∧ b = '\n' then
      let j := i + 2 + (rest.takeWhile (· = '\n')).length
      (start, j) :: splitParagraphs (rest.dropWhile (· = '\n')) j j
    else splitParagraphs (b :: rest) start (i + 1)
  termination_by cs.length
  decreasing_by
    · have := (List.dropWhile_sublist (· = '\n') (l := rest)).length_le
      simp only [List.length_cons]
      omega
    · simp only [List.length_cons]
      omega

/-- `window_overlap_start`: the loop stops one character after `overlap * 4` of them. -/
def windowOverlapStart (stop overlap : ℕ) : ℕ :=
  if overlap = 0 ∨ stop = 0 then stop else stop - (overlap * 4 + 1)

def isSentenceEnd (c : Char) : Bool := c = '.' || c = '!' || c = '?' || c = '\n'

/-- The walk back from position `i`. -/
def sentenceBreak (cs : List Char) (lookStart : ℕ) : ℕ → Option ℕ
  | 0 => none
  | i + 1 =>
    if i + 1 ≤ lookStart then none
    else if (cs[i]?).any isSentenceEnd then some (i + 1)
    else sentenceBreak cs lookStart i

def findSentenceBreak (cs : List Char) (windowStart windowEnd lookback : ℕ) : ℕ :=
  let chars := windowEnd - windowStart
  let lookStart :=
    if chars < lookback then windowStart else if chars = 0 then 0 else windowEnd - max lookback 1
  (sentenceBreak cs lookStart windowEnd).getD windowEnd

/-- Where a window that starts at `windowStart` ends. -/
def windowEnd (cs : List Char) (windowStart rangeEnd targetChars : ℕ) : ℕ :=
  let natural :=
    if targetChars ≤ rangeEnd - windowStart then windowStart + (targetChars - 1) else rangeEnd
  let snapped :=
    if natural < rangeEnd then findSentenceBreak cs windowStart natural (targetChars / 10)
    else natural
  if snapped ≤ windowStart then windowStart + 1 else snapped

/-- `slide_window` from `windowStart` on. -/
def slideWindow (cs : List Char) (rangeEnd target overlap windowStart : ℕ) : List (ℕ × ℕ) :=
  if windowStart < rangeEnd then
    let stop := windowEnd cs windowStart rangeEnd (target * 4)
    if rangeEnd ≤ stop then [(windowStart, stop)]
    else
      (windowStart, stop) ::
        slideWindow cs rangeEnd target overlap
        (max (windowOverlapStart stop overlap) (windowStart + 1))
  else []
  termination_by rangeEnd - windowStart

/-- The chunk that is being put together. -/
structure Chunker where
  windows : List (ℕ × ℕ)
  cursorStart : ℕ
  cursorEnd : ℕ
  cursorTokens : ℕ

namespace Chunker

def flush (st : Chunker) : Chunker :=
  { st with windows := st.windows ++ [(st.cursorStart, st.cursorEnd)] }

/-- A paragraph that fits: the window grows by it, and is closed when it reaches the target. -/
def append (target overlap : ℕ) (st : Chunker) (stop : ℕ) : Chunker :=
  let st := { st with cursorEnd := stop, cursorTokens := approxTokenCount (stop - st.cursorStart) }
  if target ≤ st.cursorTokens then
    let start := windowOverlapStart st.cursorEnd overlap
    { st.flush with cursorStart := start, cursorEnd := start }
  else st

/-- One paragraph of the loop; the sum of the token counts is one of `u32`. -/
def step (cs : List Char) (target overlap : ℕ) (st : Chunker) (p : ℕ × ℕ) : Chunker :=
  let oversize := saturatingU32 (target * 3) / 2
  let tokens := approxTokenCount (p.2 - p.1)
  if oversize ≤ tokens then
    let st := if st.cursorStart < st.cursorEnd then st.flush else st
    let start := windowOverlapStart p.2 overlap
    ⟨st.windows ++ slideWindow cs p.2 target overlap p.1, start, start, 0⟩
  else if st.cursorStart < st.cursorEnd ∧ oversize < (st.cursorTokens + tokens) % 2 ^ 32 then
    { st.flush with cursorStart := windowOverlapStart st.cursorEnd overlap }.append target overlap
      p.2
  else st.append target overlap p.2

end Chunker

/-- The ranges that `chunk_text` cuts out. -/
def chunkWindows (config : ChunkConfig) (cs : List Char) : List (ℕ × ℕ) :=
  if cs.isEmpty then []
  else
    let target := max config.targetTokens 1
    let overlap := min config.overlapTokens (target - 1)
    if approxTokenCount cs.length ≤ saturatingU32 (target * 3) / 2 then [(0, cs.length)]
    else
      let st := (splitParagraphs cs 0 0).foldl (Chunker.step cs target overlap) ⟨[], 0, 0, 0⟩
      if st.cursorStart < st.cursorEnd then st.flush.windows else st.windows

section Text

variable {α : Type} (L : Letters α)

/-- The byte offset of a position. -/
def byteOffset (cs : List Char) (p : ℕ) : ℕ := saturatingU32 (Text.utf8 (cs.take p)).length

def pushChunk (text : List α) (w : ℕ × ℕ) : ChunkSpec α :=
  { content := slice text w.1 w.2
    startOffset := byteOffset (text.map L.char) w.1
    endOffset := byteOffset (text.map L.char) w.2
    tokenCount := approxTokenCount (slice text w.1 w.2).length }

def chunkText (config : ChunkConfig) (text : List α) : List (ChunkSpec α) :=
  (chunkWindows config (text.map L.char)).map (pushChunk L text)

end Text

/-! ### The title -/

/-- Lines with their ends. -/
def splitInclusive : List Char → List (List Char)
  | [] => []
  | c :: rest =>
    if c = '\n' then [c] :: splitInclusive rest
    else
      match splitInclusive rest with
      | [] => [[c]]
      | line :: lines => (c :: line) :: lines

/-- A line without its end, `\n` or `\r\n`. -/
def stripLineEnd (line : List Char) : List Char :=
  match line.reverse with
  | '\n' :: '\r' :: rest => rest.reverse
  | '\n' :: rest => rest.reverse
  | _ => line

/-- The text of a markdown heading. -/
def heading (line : List Char) : Option (List Char) :=
  match line.dropWhile Text.isWhitespace with
  | '#' :: rest =>
    let body := Text.trimList (rest.dropWhile (· = '#'))
    if body.isEmpty then none
    else
      let clean := Text.trimList (body.reverse.dropWhile (· = '#')).reverse
      if clean.isEmpty then none else some clean
  | _ => none

/-- `derive_document_title`; `fileStem` is that of the path, where it is Unicode. -/
def deriveDocumentTitle (text : List Char) (fileStem : Option (List Char)) : List Char :=
  match (((splitInclusive text).map stripLineEnd).take 64).findSome? heading with
  | some title => title
  | none => fileStem.getD "(untitled)".toList

/-! ### What ingest stores of a text -/

/-- The title of `documents`, and the rows of `document_chunks`. -/
structure IngestedDocument (α : Type) where
  title : List Char
  chunks : List (ChunkSpec α)

section Ingest

variable {α : Type} (L : Letters α) (reg : RedactionRegistry)

def redactChunk (spec : ChunkSpec α) : ChunkSpec α :=
  { spec with content := (reg.redact L spec.content).text }

/-- The texts that `handle_ingest_document_durable` stores, where it stores any. -/
def ingestDocument (config : ChunkConfig) (text : List α) (fileStem : Option (List Char)) :
    Except Error (IngestedDocument α) :=
  let chunks := chunkText L config text
  if chunks.isEmpty then
    .error (.storage "ingest_document: parser returned text but chunker produced 0 chunks")
  else .ok ⟨deriveDocumentTitle (text.map L.char) fileStem, chunks.map (redactChunk L reg)⟩

end Ingest

end Solo
