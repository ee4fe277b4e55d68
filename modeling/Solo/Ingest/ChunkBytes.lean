import Mathlib.Data.List.TakeWhile
import Solo.Ingest.Windows

/-!
# Cutting a document at byte offsets (`document/chunk.rs`)

The chunker as the source has it: offsets count bytes, a slice off a character boundary panics
(`none`), and `slide_window` steps to the next boundary after a byte step. `Bytes.chunkText_eq`: it
never panics, and its chunks are those of `chunkWindows`, which counts characters.
-/

namespace Solo

open Letters Ranges

namespace Bytes

/-! ### Slices and boundaries -/

/-- `len_utf8` -/
def width (c : Char) : ℕ := (Text.utf8Char c).length

/-- `text.len()` -/
def len (cs : List Char) : ℕ := (Text.utf8 cs).length

/-- The text cut at a byte offset, if that is a boundary. -/
def splitAt? : List Char → ℕ → Option (List Char × List Char)
  | cs, 0 => some ([], cs)
  | [], _ + 1 => none
  | c :: cs, i + 1 => if width c ≤ i + 1 then (splitAt? cs (i + 1 - width c)).map fun r =>
    (c :: r.1, r.2) else none

def isCharBoundary (text : List Char) (i : ℕ) : Bool := (splitAt? text i).isSome

/-- `&text[a..b]`; `none` where it panics. -/
def slice? (text : List Char) (a b : ℕ) : Option (List Char) :=
  if a ≤ b then do
    let cut ← splitAt? text a
    let mid ← splitAt? cut.2 (b - a)
    return mid.1
  else none

/-- `char_indices`, from offset `i` on. -/
def charIndices : List Char → ℕ → List (ℕ × Char)
  | [], _ => []
  | c :: cs, i => (i, c) :: charIndices cs (i + width c)

/-! ### The functions of `chunk.rs` -/

/-- `split_paragraphs`, with the bytes from `i` on. -/
def splitParagraphs (bs : List ℕ) (start i : ℕ) : List (ℕ × ℕ) :=
  match bs with
  | [] => if start < i then [(start, i)] else []
  | [_] => [(start, i + 1)]
  | a :: b :: rest =>
    if a = 10 ∧ b = 10 then
      let j := i + 2 + (rest.takeWhile (· = 10)).length
      (start, j) :: splitParagraphs (rest.dropWhile (· = 10)) j j
    else splitParagraphs (b :: rest) start (i + 1)
  termination_by bs.length
  decreasing_by
    · have := (List.dropWhile_sublist (· = 10) (l := rest)).length_le
      simp only [List.length_cons]
      omega
    · simp only [List.length_cons]
      omega

/-- The loop of `window_overlap_start`, over the characters from the end on. -/
def overlapLoop (targetChars : ℕ) : ℕ → List (ℕ × Char) → ℕ
  | _, [] => 0
  | count, (idx, _) :: rest => if targetChars < count + 1 then idx else overlapLoop targetChars
    (count + 1) rest

def windowOverlapStart (text : List Char) (stop overlap : ℕ) : Option ℕ :=
  if overlap = 0 ∨ stop = 0 then some stop
  else (splitAt? text stop).map fun cut => overlapLoop (overlap * 4) 0 (charIndices cut.1 0).reverse

def pushChunk (text : List Char) (start stop : ℕ) : Option (ChunkSpec Char) := do
  let content ← slice? text start stop
  return ⟨content, saturatingU32 start, saturatingU32 stop, approxTokenCount content.length⟩

/-- The first loop of `find_sentence_break`: `count` and `start_idx`. -/
def lookBackLoop (windowStart lookback : ℕ) : ℕ → List (ℕ × Char) → ℕ × ℕ
  | count, [] => (count, 0)
  | count, (idx, _) :: rest =>
    if lookback ≤ count + 1 then (count + 1, windowStart + idx)
      else lookBackLoop windowStart lookback (count + 1) rest

def isSentenceByte (b : ℕ) : Bool := b = 46 || b = 33 || b = 63 || b = 10

theorem width_pos (c : Char) : 0 < width c := by
  unfold width Text.utf8Char
  dsimp only
  split
  · exact Nat.one_pos
  split
  · exact Nat.succ_pos _
  split <;> exact Nat.succ_pos _

/-- The walk back from `i`. -/
def sentenceBreak (text : List Char) (lookStart i : ℕ) : Option (Option ℕ) :=
  if _h : lookStart < i then
    match splitAt? text i with
    | none => none
    | some (before, _) =>
      match before.getLast? with
      | none => some none
      | some c =>
        match (Text.utf8 text)[i - width c]? with
        | none => none
        | some b => if isSentenceByte b then some (some i)
          else sentenceBreak text lookStart (i - width c)
  else some none
  termination_by i
  decreasing_by
    have := width_pos c
    omega

def findSentenceBreak (text : List Char) (windowStart windowEnd lookback : ℕ) : Option ℕ := do
  let window ← slice? text windowStart windowEnd
  let (count, startIdx) := lookBackLoop windowStart lookback 0 (charIndices window 0).reverse
  let found ← sentenceBreak text (if count < lookback then windowStart else startIdx) windowEnd
  return found.getD windowEnd

/-- The loop of `slide_window` that counts the characters of a window. -/
def windowLoop (windowStart rangeEnd targetChars : ℕ) : ℕ → List (ℕ × Char) → ℕ
  | _, [] => rangeEnd
  | seen, (idx, _) :: rest =>
    if targetChars ≤ seen + 1 then windowStart + idx
    else windowLoop windowStart rangeEnd targetChars (seen + 1) rest

def windowEnd (text : List Char) (windowStart rangeEnd targetChars : ℕ) : Option ℕ := do
  let suffix ← slice? text windowStart rangeEnd
  let natural := windowLoop windowStart rangeEnd targetChars 0 (charIndices suffix 0)
  let snapped ← if natural < rangeEnd then
      findSentenceBreak text windowStart natural (targetChars / 10) else some natural
  return if snapped ≤ windowStart then
      (match suffix with | [] => rangeEnd | c :: _ => windowStart + width c) else snapped

/-- The next boundary at or after `i`. -/
def realign (text : List Char) (rangeEnd i : ℕ) : ℕ :=
  if i < rangeEnd ∧ isCharBoundary text i = false then realign text rangeEnd (i + 1) else i
  termination_by rangeEnd - i

theorem le_realign (text : List Char) (rangeEnd i : ℕ) : i ≤ realign text rangeEnd i := by
  induction hn : rangeEnd - i using Nat.strong_induction_on generalizing i with
  | _ n ih =>
    rw [realign]
    split
    · next h =>
      obtain ⟨hlt, -⟩ := h
      exact (Nat.le_succ i).trans (ih (rangeEnd - (i + 1)) (by omega) (i + 1) rfl)
    · exact le_rfl

/-- `slide_window` from `windowStart` on. -/
def slideWindow (text : List Char) (rangeEnd target overlap windowStart : ℕ) :
    Option (List (ChunkSpec Char)) :=
  if windowStart < rangeEnd then do
    let stop ← windowEnd text windowStart rangeEnd (target * 4)
    let chunk ← pushChunk text windowStart stop
    if rangeEnd ≤ stop then return [chunk]
    else
      let next ← windowOverlapStart text stop overlap
      let rest ← slideWindow text rangeEnd target overlap
          (realign text rangeEnd (max next (windowStart + 1)))
      return chunk :: rest
  else return []
  termination_by rangeEnd - windowStart
  decreasing_by
    have := le_realign text rangeEnd (max next (windowStart + 1))
    omega

structure Chunker where
  chunks : List (ChunkSpec Char)
  cursorStart : ℕ
  cursorEnd : ℕ
  cursorTokens : ℕ

namespace Chunker

def flush (text : List Char) (st : Chunker) : Option Chunker := do
  let chunk ← pushChunk text st.cursorStart st.cursorEnd
  return { st with chunks := st.chunks ++ [chunk] }

/-- A paragraph that is appended to the open window. -/
def append (text : List Char) (target overlap : ℕ) (st : Chunker) (stop : ℕ) : Option Chunker := do
  let window ← slice? text st.cursorStart stop
  let st := { st with cursorEnd := stop, cursorTokens := approxTokenCount window.length }
  if target ≤ st.cursorTokens then
    let flushed ← st.flush text
    let start ← windowOverlapStart text st.cursorEnd overlap
    return { flushed with cursorStart := start, cursorEnd := start }
  else return st

/-- One paragraph of the loop. -/
def step (text : List Char) (target overlap : ℕ) (st : Chunker) (p : ℕ × ℕ) : Option Chunker := do
  let oversize := saturatingU32 (target * 3) / 2
  let paragraph ← slice? text p.1 p.2
  let tokens := approxTokenCount paragraph.length
  if oversize ≤ tokens then
    let flushed ← if st.cursorStart < st.cursorEnd then st.flush text else some st
    let more ← slideWindow text p.2 target overlap p.1
    let start ← windowOverlapStart text p.2 overlap
    return ⟨flushed.chunks ++ more, start, start, 0⟩
  else if st.cursorStart < st.cursorEnd ∧ oversize < (st.cursorTokens + tokens) % 2 ^ 32 then
    let flushed ← st.flush text
    let start ← windowOverlapStart text st.cursorEnd overlap
    { flushed with cursorStart := start }.append text target overlap p.2
  else st.append text target overlap p.2

end Chunker

/-- `chunk_text` -/
def chunkText (config : ChunkConfig) (text : List Char) : Option (List (ChunkSpec Char)) :=
  if text.isEmpty then some []
  else
    let target := max config.targetTokens 1
    let overlap := min config.overlapTokens (target - 1)
    let totalTokens := approxTokenCount text.length
    if totalTokens ≤ saturatingU32 (target * 3) / 2 then some
      [⟨text, 0, saturatingU32 (len text), totalTokens⟩]
    else do
      let st ← (splitParagraphs (Text.utf8 text) 0 0).foldlM (Chunker.step text target overlap)
          ⟨[], 0, 0, 0⟩
      if st.cursorStart < st.cursorEnd then (st.flush text).map (·.chunks) else return st.chunks

/-! ### Offsets of positions -/

theorem utf8_append (cs cs' : List Char) : Text.utf8 (cs ++ cs') = Text.utf8 cs ++ Text.utf8 cs' :=
  List.flatMap_append

theorem utf8_cons (c : Char) (cs : List Char) : Text.utf8 (c :: cs) = Text.utf8Char c ++
    Text.utf8 cs := List.flatMap_cons

theorem len_append (cs cs' : List Char) : len (cs ++ cs') = len cs + len cs' := by
  rw [len, utf8_append, List.length_append]
  rfl

theorem len_cons (c : Char) (cs : List Char) : len (c :: cs) = width c + len cs := by
  rw [len, utf8_cons, List.length_append]
  rfl

@[simp] theorem len_nil : len [] = 0 := rfl

theorem len_eq_zero {cs : List Char} : len cs = 0 ↔ cs = [] := by
  cases cs with
  | nil => simp
  | cons c cs =>
    have := width_pos c
    simp only [len_cons, reduceCtorEq, iff_false]
    omega

variable {text : List Char}

/-- The offset of a position. -/
def off (text : List Char) (p : ℕ) : ℕ := len (text.take p)

@[simp] theorem off_zero : off text 0 = 0 := by simp [off]

theorem off_length : off text text.length = len text := by rw [off, List.take_length]

theorem off_succ {p : ℕ} {c : Char} (h : text[p]? = some c) :
    off text (p + 1) = off text p + width c := by
  rw [off, List.take_add_one, h, Option.toList_some, len_append, len_cons, len_nil, Nat.add_zero]
  rfl

theorem take_eq_append_slice {a b : ℕ} (h : a ≤ b) : text.take b = text.take a ++
    slice text a b := by
  rw [slice]
  conv => lhs; rw [← List.take_append_drop a (text.take b), List.take_take, min_eq_left h]

/-- Between two positions lies the text between them. -/
theorem off_add {a b : ℕ} (h : a ≤ b) : off text b = off text a + len (slice text a b) := by
  rw [off, take_eq_append_slice h, len_append]
  rfl

theorem length_slice {a b : ℕ} (hb : b ≤ text.length) : (slice text a b).length = b - a := by
  rw [slice, List.length_drop, List.length_take, min_eq_left hb]

theorem off_lt_off {a b : ℕ} (hb : b ≤ text.length) : off text a < off text b ↔ a < b := by
  constructor
  · intro h
    by_contra hle
    rw [off_add (not_lt.1 hle)] at h
    omega
  · intro h
    have hne : slice text a b ≠ [] := by
      refine List.ne_nil_of_length_pos ?_
      rw [length_slice hb]
      omega
    have := Nat.pos_of_ne_zero (mt len_eq_zero.1 hne)
    rw [off_add h.le]
    omega

theorem off_le_off {a b : ℕ} (ha : a ≤ text.length) : off text a ≤ off text b ↔ a ≤ b := by
  rw [← not_lt, off_lt_off ha, not_lt]

theorem splitAt?_append (cs cs' : List Char) : splitAt? (cs ++ cs') (len cs) = some (cs, cs') := by
  induction cs with
  | nil => cases cs' <;> rfl
  | cons c cs ih =>
    have hpos := width_pos c
    obtain ⟨k, hk⟩ : ∃ k, len (c :: cs) = k + 1 :=
      Nat.exists_eq_succ_of_ne_zero (by rw [len_cons]; omega)
    rw [hk, List.cons_append, splitAt?, ← hk, len_cons, if_pos (Nat.le_add_right _ _),
      Nat.add_sub_cancel_left, ih]
    rfl

theorem splitAt?_off (text : List Char) (p : ℕ) :
    splitAt? text (off text p) = some (text.take p, text.drop p) := by
  conv => lhs; rw [← List.take_append_drop p text]
  have := splitAt?_append (text.take p) (text.drop p)
  rw [List.take_append_drop] at this
  rw [List.take_append_drop]
  exact this

theorem isCharBoundary_off (p : ℕ) : isCharBoundary text (off text p) = true := by
  rw [isCharBoundary, splitAt?_off]
  rfl

theorem slice?_off {a b : ℕ} (h : a ≤ b) : slice? text (off text a) (off text b) =
    some (slice text a b) := by
  have hle : off text a ≤ off text b := by
    rw [off_add h]
    exact Nat.le_add_right _ _
  have hdrop : text.drop a = slice text a b ++ text.drop b := by
    have hb : text.drop b = (text.drop a).drop (b - a) := by
      rw [List.drop_drop, Nat.add_sub_cancel' h]
    rw [slice, List.drop_take, hb, List.take_append_drop]
  rw [slice?, if_pos hle, splitAt?_off, Option.bind_eq_bind, Option.bind_some, off_add h,
    Nat.add_sub_cancel_left, hdrop, splitAt?_append]
  rfl

theorem splitAt?_inside (cs rest : List Char) {c : Char} {j : ℕ} (hj : 0 < j)
    (hwidth : j < width c) : splitAt? (cs ++ c :: rest) (len cs + j) = none := by
  induction cs with
  | nil =>
    obtain ⟨k, rfl⟩ := Nat.exists_eq_succ_of_ne_zero hj.ne'
    rw [len_nil, Nat.zero_add, List.nil_append, splitAt?, if_neg (not_le.2 hwidth)]
  | cons d cs ih =>
    obtain ⟨k, hk⟩ : ∃ k, len (d :: cs) + j = k + 1 := Nat.exists_eq_succ_of_ne_zero (by omega)
    have hrest : k + 1 - width d = len cs + j := by
      rw [len_cons] at hk
      omega
    have hle : width d ≤ k + 1 := by
      rw [len_cons] at hk
      omega
    rw [hk, List.cons_append, splitAt?, if_pos hle, hrest, ih]
    rfl

theorem eq_take_cons_drop {p : ℕ} {c : Char} (h : text[p]? = some c) : text = text.take p ++
    c :: text.drop (p + 1) := by
  obtain ⟨hlt, hget⟩ := List.getElem?_eq_some_iff.1 h
  rw [← hget, ← List.drop_eq_getElem_cons hlt, List.take_append_drop]

/-- Inside a character there is no boundary. -/
theorem isCharBoundary_inside {p i : ℕ} {c : Char} (h : text[p]? = some c) (hlt : off text p < i)
    (hi : i < off text (p + 1)) : isCharBoundary text i = false := by
  rw [off_succ h] at hi
  have hsplit :=
    splitAt?_inside (text.take p) (text.drop (p + 1)) (c := c) (j := i - off text p) (by omega)
    (by omega)
  rw [← eq_take_cons_drop h] at hsplit
  have hoff : len (text.take p) + (i - off text p) = i := Nat.add_sub_cancel' hlt.le
  rw [hoff] at hsplit
  rw [isCharBoundary, hsplit]
  rfl

theorem charIndices_getElem? (cs : List Char) (i k : ℕ) :
    (charIndices cs i)[k]? = (cs[k]?).map fun c => (i + off cs k, c) := by
  induction cs generalizing i k with
  | nil => rfl
  | cons c cs ih =>
    cases k with
    | zero => simp [charIndices]
    | succ k =>
      rw [charIndices, List.getElem?_cons_succ, ih, List.getElem?_cons_succ, off, off,
        List.take_succ_cons, len_cons]
      simp only [Nat.add_assoc]

theorem charIndices_length (cs : List Char) (i : ℕ) : (charIndices cs i).length = cs.length := by
  induction cs generalizing i with
  | nil => rfl
  | cons c cs ih => rw [charIndices, List.length_cons, ih, List.length_cons]

/-- The offset of the character `k` from the end. -/
theorem charIndices_reverse (cs : List Char) (k : ℕ) :
    (((charIndices cs 0).reverse)[k]?).map (·.1) = if k <
    cs.length then some (off cs (cs.length - 1 - k)) else none := by
  split
  · next hlt =>
    have hk : k < (charIndices cs 0).length := by rwa [charIndices_length]
    have hlast : cs.length - 1 - k < cs.length := by omega
    rw [List.getElem?_reverse hk, charIndices_length, charIndices_getElem?,
      List.getElem?_eq_getElem hlast]
    simp only [Option.map_some, Nat.zero_add]
  · next hle =>
    have hnone : (charIndices cs 0).reverse[k]? = none := by
      rw [List.getElem?_eq_none_iff, List.length_reverse, charIndices_length]
      exact not_lt.1 hle
    rw [hnone]
    rfl

/-! ### The loops over `char_indices` -/

theorem overlapLoop_eq (targetChars count : ℕ) (l : List (ℕ × Char)) :
    overlapLoop targetChars count l = ((l[targetChars - count]?).map (·.1)).getD 0 := by
  induction l generalizing count with
  | nil => rfl
  | cons x l ih =>
    rw [overlapLoop]
    split
    · next h =>
      have hzero : targetChars - count = 0 := by omega
      rw [hzero]
      rfl
    · next h =>
      have hsucc : targetChars - count = targetChars - (count + 1) + 1 := by omega
      rw [ih, hsucc, List.getElem?_cons_succ]

theorem windowLoop_eq (windowStart rangeEnd targetChars seen : ℕ) (l : List (ℕ × Char)) :
    windowLoop windowStart rangeEnd targetChars seen l =
      ((l[targetChars - (seen + 1)]?).map fun x => windowStart + x.1).getD rangeEnd := by
  induction l generalizing seen with
  | nil => rfl
  | cons x l ih =>
    rw [windowLoop]
    split
    · next h =>
      have hzero : targetChars - (seen + 1) = 0 := by omega
      rw [hzero]
      rfl
    · next h =>
      have hsucc : targetChars - (seen + 1) = targetChars - (seen + 1 + 1) + 1 := by omega
      rw [ih, hsucc, List.getElem?_cons_succ]

/-- Where `find_sentence_break` looks back to. -/
theorem lookBackLoop_eq (windowStart lookback count : ℕ) (l : List (ℕ × Char)) :
    (if (lookBackLoop windowStart lookback count l).1 < lookback then windowStart
      else (lookBackLoop windowStart lookback count l).2) =
      ((l[lookback - (count + 1)]?).map fun x => windowStart + x.1).getD
        (if count + l.length < lookback then windowStart else 0) := by
  induction l generalizing count with
  | nil => rfl
  | cons x l ih =>
    rw [lookBackLoop]
    split
    · next h =>
      have hzero : lookback - (count + 1) = 0 := by omega
      rw [hzero, if_neg (not_lt.2 h)]
      rfl
    · next h =>
      have hsucc : lookback - (count + 1) = lookback - (count + 1 + 1) + 1 := by omega
      have hlen : count + (x :: l).length = count + 1 + l.length := by
        rw [List.length_cons]
        omega
      rw [ih, hsucc, List.getElem?_cons_succ, hlen]

/-! ### The functions at the offsets of positions -/

theorem off_eq_zero {p : ℕ} (hp : p ≤ text.length) : off text p = 0 ↔ p = 0 := by
  have h : off text p ≤ off text 0 ↔ p ≤ 0 := off_le_off hp
  rw [off_zero] at h
  omega

theorem off_take {k p : ℕ} (h : k ≤ p) : off (text.take p) k = off text k := by
  rw [off, List.take_take, min_eq_left h]
  rfl

/-- A position in a slice, from the start of the text. -/
theorem off_slice {a b k : ℕ} (h : k ≤ b - a) :
    off text a + off (slice text a b) k = off text (a + k) := by
  have hslice : (slice text a b).take k = slice text a (a + k) := by
    rw [slice, slice, List.drop_take, List.take_take, min_eq_left h, List.drop_take,
      Nat.add_sub_cancel_left]
  rw [off_add (Nat.le_add_right a k), ← hslice]
  rfl

theorem windowOverlapStart_off {stop : ℕ} (hstop : stop ≤ text.length) (overlap : ℕ) :
    windowOverlapStart text (off text stop) overlap =
    some (off text (Solo.windowOverlapStart stop overlap)) := by
  unfold windowOverlapStart Solo.windowOverlapStart
  simp only [off_eq_zero hstop]
  split
  · rfl
  have hlen : (text.take stop).length = stop := by rw [List.length_take, min_eq_left hstop]
  rw [splitAt?_off, Option.map_some, overlapLoop_eq, charIndices_reverse, hlen]
  split
  · next hlt =>
    rw [Option.getD_some, off_take (by omega)]
    congr 2
    omega
  · next hlt =>
    have hzero : stop - (overlap * 4 + 1) = 0 := by omega
    rw [hzero, off_zero]
    rfl

theorem utf8Char_ascii {c : Char} (h : c.toNat < 128) : Text.utf8Char c = [c.toNat] := if_pos h

theorem utf8Char_high {c : Char} (h : 128 ≤ c.toNat) {b : ℕ} (hb : b ∈ Text.utf8Char c) :
    128 ≤ b := by
  unfold Text.utf8Char at hb
  dsimp only at hb
  rw [if_neg (not_lt.2 h)] at hb
  split at hb
  · simp only [List.mem_cons, List.not_mem_nil, or_false] at hb
    omega
  split at hb
  · simp only [List.mem_cons, List.not_mem_nil, or_false] at hb
    omega
  · simp only [List.mem_cons, List.not_mem_nil, or_false] at hb
    omega

theorem isSentenceEnd_eq (c : Char) : isSentenceEnd c = isSentenceByte c.toNat := by
  have hchar (d : Char) : decide (c = d) = decide (c.toNat = d.toNat) :=
    decide_eq_decide.2 Char.toNat_inj.symm
  rw [isSentenceEnd, isSentenceByte, hchar, hchar, hchar, hchar]
  rfl

/-- The first byte of a character tells whether it ends a sentence. -/
theorem utf8Char_head (c : Char) : ∃ b, (Text.utf8Char c).head? = some b ∧
    isSentenceByte b = isSentenceEnd c := by
  rcases Nat.lt_or_ge c.toNat 128 with h | h
  · exact ⟨c.toNat, by rw [utf8Char_ascii h]; rfl, (isSentenceEnd_eq c).symm⟩
  · obtain ⟨b, hb⟩ : ∃ b, (Text.utf8Char c).head? = some b := by
      rcases hbytes : Text.utf8Char c with - | ⟨b, rest⟩
      · exact absurd (width_pos c) (by rw [width, hbytes]; exact lt_irrefl 0)
      · exact ⟨b, rfl⟩
    have hle := utf8Char_high h (List.mem_of_head? hb)
    refine ⟨b, hb, ?_⟩
    rw [isSentenceEnd_eq, isSentenceByte, isSentenceByte]
    simp only [show b ≠
      46 by omega, show b ≠ 33 by omega, show b ≠ 63 by omega, show b ≠ 10 by omega,
      show c.toNat ≠
          46 by omega, show c.toNat ≠ 33 by omega, show c.toNat ≠ 63 by omega, show c.toNat ≠ 10 by omega]

theorem utf8_off {p : ℕ} {c : Char} (h : text[p]? = some c) :
    (Text.utf8 text)[off text p]? = (Text.utf8Char c).head? := by
  have hutf : Text.utf8 text = Text.utf8 (text.take p) ++
      (Text.utf8Char c ++ Text.utf8 (text.drop (p + 1))) := by
    rw [← utf8_cons, ← utf8_append, ← eq_take_cons_drop h]
  have hpos := width_pos c
  rw [hutf, off, len, List.getElem?_append_right le_rfl, Nat.sub_self,
    List.getElem?_append_left hpos, List.head?_eq_getElem?]

theorem pushChunk_off {start stop : ℕ} (h : start ≤ stop) :
    pushChunk text (off text start) (off text stop) =
    some (Solo.pushChunk plain text (start, stop)) := by
  have hplain : text.map plain.char = text := List.map_id text
  rw [pushChunk, slice?_off h, Option.bind_eq_bind, Option.bind_some, Solo.pushChunk, hplain]
  rfl

theorem sentenceBreak_off {lookStart i : ℕ} (hi : i ≤ text.length) :
    sentenceBreak text (off text lookStart) (off text i) =
      some ((Solo.sentenceBreak text lookStart i).map (off text)) := by
  induction i with
  | zero =>
    rw [sentenceBreak, dif_neg (by rw [off_zero]; omega)]
    rfl
  | succ i ih =>
    rw [sentenceBreak, Solo.sentenceBreak]
    by_cases hle : i + 1 ≤ lookStart
    · rw [dif_neg (by rw [off_lt_off hi]; omega), if_pos hle]
      rfl
    have hget : text[i]? = some (text.get ⟨i, hi⟩) := List.getElem?_eq_getElem hi
    generalize text.get ⟨i, hi⟩ = c at hget
    have hlast : (text.take (i + 1)).getLast? = some c := by
      rw [List.take_add_one, hget, Option.toList_some, List.getLast?_concat]
    have hback : off text (i + 1) - width c = off text i := by
      rw [off_succ hget, Nat.add_sub_cancel]
    obtain ⟨b, hb, hend⟩ := utf8Char_head c
    rw [dif_pos (by rw [off_lt_off hi]; omega), splitAt?_off, if_neg hle]
    dsimp only
    rw [hlast]
    dsimp only
    rw [hback, utf8_off hget, hb, hget, Option.any_some]
    dsimp only
    rw [hend, ih (Nat.le_of_succ_le hi)]
    cases isSentenceEnd c <;> rfl

theorem findSentenceBreak_off {windowStart windowEnd : ℕ} (hle : windowStart ≤ windowEnd)
    (hend : windowEnd ≤ text.length) (lookback : ℕ) :
    findSentenceBreak text (off text windowStart) (off text windowEnd) lookback =
      some (off text (Solo.findSentenceBreak text windowStart windowEnd lookback)) := by
  unfold findSentenceBreak
  rw [slice?_off hle, Option.bind_eq_bind, Option.bind_some]
  dsimp only
  rw [lookBackLoop_eq, ← Function.comp_def, ← Option.map_map, charIndices_reverse,
    List.length_reverse, charIndices_length, length_slice hend, Nat.zero_add, Nat.zero_add]
  have hlook :
      (Option.map (fun i => off text windowStart + i)
        (if lookback - 1 < windowEnd - windowStart then
        some (off (slice text windowStart windowEnd) (windowEnd - windowStart - 1 - (lookback - 1)))
          else none)).getD
        (if windowEnd - windowStart < lookback then off text windowStart else 0) =
      off text (if windowEnd - windowStart < lookback then windowStart
        else if windowEnd - windowStart = 0 then 0 else windowEnd - max lookback 1) := by
    by_cases hfew : windowEnd - windowStart < lookback
    · rw [if_neg (by omega), if_pos hfew, if_pos hfew]
      rfl
    by_cases hnone : windowEnd - windowStart = 0
    · rw [if_neg (by omega), if_neg hfew, if_neg hfew, if_pos hnone, off_zero]
      rfl
    · rw [if_pos (by omega), if_neg hfew, if_neg hfew, if_neg hnone, Option.map_some,
        Option.getD_some, off_slice (by omega)]
      congr 1
      omega
  rw [hlook, sentenceBreak_off hend, Option.bind_eq_bind, Option.bind_some, Option.getD_map]
  rfl

theorem findSentenceBreak_le (cs : List Char) (windowStart windowEnd lookback : ℕ) :
    Solo.findSentenceBreak cs windowStart windowEnd lookback ≤ windowEnd := by
  unfold Solo.findSentenceBreak
  dsimp only
  rcases hbreak : Solo.sentenceBreak cs _ windowEnd with - | k
  · exact le_rfl
  · exact (sentenceBreak_eq_some.1 hbreak).2.1

theorem windowEnd_off {windowStart rangeEnd : ℕ} (hlt : windowStart < rangeEnd)
    (hend : rangeEnd ≤ text.length) (targetChars : ℕ) :
    windowEnd text (off text windowStart) (off text rangeEnd) targetChars =
      some (off text (Solo.windowEnd text windowStart rangeEnd targetChars)) := by
  have hget : text[windowStart]? = some (text.get ⟨windowStart, hlt.trans_le hend⟩) :=
    List.getElem?_eq_getElem _
  generalize text.get ⟨windowStart, hlt.trans_le hend⟩ = c at hget
  have hsuffix : slice text windowStart rangeEnd = c :: slice text (windowStart + 1) rangeEnd := by
    have htake : (text.take rangeEnd)[windowStart]? = some c := by
      rw [List.getElem?_take_of_lt hlt, hget]
    obtain ⟨h, hc⟩ := List.getElem?_eq_some_iff.1 htake
    rw [slice, List.drop_eq_getElem_cons h, hc]
    rfl
  have hnatural : windowLoop (off text windowStart) (off text rangeEnd) targetChars 0
      (charIndices (slice text windowStart rangeEnd) 0) =
      off text (if targetChars ≤ rangeEnd - windowStart then windowStart + (targetChars - 1)
        else rangeEnd) := by
    rw [windowLoop_eq, charIndices_getElem?, Nat.zero_add]
    by_cases hfits : targetChars ≤ rangeEnd - windowStart
    · have hlen : targetChars - 1 < (slice text windowStart rangeEnd).length := by
        rw [length_slice hend]
        omega
      rw [List.getElem?_eq_getElem hlen, if_pos hfits]
      simp only [Option.map_some, Option.getD_some, Nat.zero_add]
      exact off_slice (by omega)
    · have hnone : (slice text windowStart rangeEnd)[targetChars - 1]? = none := by
        rw [List.getElem?_eq_none_iff, length_slice hend]
        omega
      rw [hnone, if_neg hfits]
      rfl
  have hbounds :
      windowStart ≤
      (if targetChars ≤ rangeEnd - windowStart then windowStart + (targetChars - 1) else rangeEnd) ∧
      (if targetChars ≤ rangeEnd - windowStart then windowStart + (targetChars - 1) else rangeEnd) ≤
      rangeEnd := by
    split <;> omega
  unfold windowEnd Solo.windowEnd
  rw [slice?_off hlt.le, Option.bind_eq_bind, Option.bind_some]
  dsimp only
  rw [hnatural]
  generalize (if targetChars ≤ rangeEnd - windowStart then windowStart + (targetChars - 1)
    else rangeEnd) = natural at hbounds
  have hforce (snapped : ℕ) (hle : snapped ≤ rangeEnd) :
      (if off text snapped ≤ off text windowStart then off text windowStart +
        width c else off text snapped) =
        off text (if snapped ≤ windowStart then windowStart + 1 else snapped) := by
    rw [← off_succ hget]
    by_cases hsnap : snapped ≤ windowStart
    · rw [if_pos ((off_le_off (hle.trans hend)).2 hsnap), if_pos hsnap]
    · rw [if_neg (mt (off_le_off (hle.trans hend)).1 hsnap), if_neg hsnap]
  by_cases hlast : natural < rangeEnd
  · rw [if_pos ((off_lt_off hend).2 hlast), if_pos hlast,
      findSentenceBreak_off hbounds.1 (hbounds.2.trans hend),
      Option.bind_eq_bind, Option.bind_some, hsuffix]
    exact congrArg some (hforce _ ((findSentenceBreak_le text _ _ _).trans hbounds.2))
  · rw [if_neg (mt (off_lt_off hend).1 hlast), if_neg hlast, Option.bind_eq_bind, Option.bind_some,
      hsuffix]
    exact congrArg some (hforce natural hbounds.2)

theorem realign_off {p rangeEnd : ℕ} : realign text rangeEnd (off text p) = off text p := by
  rw [realign, if_neg (by simp [isCharBoundary_off])]

/-- From inside a character, `slide_window` steps to the character after it. -/
theorem realign_inside {p rangeEnd i : ℕ} {c : Char} (hget : text[p]? = some c)
    (hend : off text (p + 1) ≤ rangeEnd)
    (hlt : off text p < i) (hi : i ≤ off text (p + 1)) :
    realign text rangeEnd i = off text (p + 1) := by
  induction hn : off text (p + 1) - i generalizing i with
  | zero =>
    obtain rfl : i = off text (p + 1) := by omega
    exact realign_off
  | succ n ih =>
    rw [realign, if_pos ⟨by omega, isCharBoundary_inside hget hlt (by omega)⟩]
    exact ih (by omega) (by omega) (by omega)

theorem realign_nextStart {windowStart rangeEnd overlap stop : ℕ} (hlt : windowStart < stop)
    (hstop : stop ≤ rangeEnd) (hend : rangeEnd ≤ text.length) :
    realign text (off text rangeEnd)
    (max (off text (Solo.windowOverlapStart stop overlap)) (off text windowStart + 1)) =
      off text (nextStart overlap windowStart stop) := by
  have hwindow : windowStart < text.length := by omega
  have hget : text[windowStart]? = some (text.get ⟨windowStart, hwindow⟩) :=
    List.getElem?_eq_getElem _
  have hnext := windowOverlapStart_le stop overlap
  unfold nextStart
  rcases Nat.lt_or_ge windowStart (Solo.windowOverlapStart stop overlap) with h | h
  · have hoff : off text windowStart < off text (Solo.windowOverlapStart stop overlap) :=
      (off_lt_off (hnext.trans (hstop.trans hend))).2 h
    rw [max_eq_left hoff, max_eq_left h]
    exact realign_off
  · have hoff : off text (Solo.windowOverlapStart stop overlap) ≤ off text windowStart :=
      (off_le_off (hnext.trans (hstop.trans hend))).2 h
    have hstep : off text windowStart < off text (windowStart + 1) :=
      (off_lt_off hwindow).2 (Nat.lt_succ_self _)
    rw [max_eq_right (by omega), max_eq_right (by omega)]
    exact realign_inside hget ((off_le_off (by omega)).2 (by omega)) (Nat.lt_succ_self _) hstep

variable {target : ℕ}

theorem slideWindow_off {windowStart rangeEnd : ℕ} (htarget : 0 < target) (overlap : ℕ)
    (hend : rangeEnd ≤ text.length) (hlt : windowStart < rangeEnd) :
    slideWindow text (off text rangeEnd) target overlap (off text windowStart) =
      some ((Solo.slideWindow text rangeEnd target overlap windowStart).map
        (Solo.pushChunk plain text)) := by
  induction hn : rangeEnd - windowStart using Nat.strong_induction_on generalizing windowStart with
  | _ n ih =>
    obtain ⟨hstart, hstop, -⟩ := windowEnd_bounds text htarget hlt
    rw [slideWindow_eq overlap hlt, slideWindow, if_pos ((off_lt_off hend).2 hlt),
      windowEnd_off hlt hend]
    simp only [Option.bind_eq_bind]
    rw [Option.bind_some]
    generalize Solo.windowEnd text windowStart rangeEnd (target * 4) = stop at hstart hstop
    rw [pushChunk_off hstart.le, Option.bind_some]
    by_cases hlast : rangeEnd ≤ stop
    · rw [if_pos ((off_le_off hend).2 hlast), if_pos hlast]
      rfl
    · have hnext := nextStart_le overlap hstart
      have hprogress : windowStart < nextStart overlap windowStart stop :=
        lt_of_lt_of_le (Nat.lt_succ_self _) (le_max_right _ _)
      rw [if_neg (mt (off_le_off hend).1 hlast), if_neg hlast,
        windowOverlapStart_off (hstop.trans hend), Option.bind_some,
        realign_nextStart hstart hstop hend, ih (rangeEnd - nextStart overlap windowStart stop)
          (by omega) (by omega) rfl]
      rfl

/-! ### The loop over the paragraphs -/

/-- The state of the loop, in bytes. -/
def Chunker.ofPositions (text : List Char) (st : Solo.Chunker) : Chunker :=
  ⟨st.windows.map (Solo.pushChunk plain text), off text st.cursorStart, off text st.cursorEnd,
    st.cursorTokens⟩

theorem flush_off (st : Solo.Chunker) (h : st.cursorStart ≤ st.cursorEnd) :
    (Chunker.ofPositions text st).flush text = some (Chunker.ofPositions text st.flush) := by
  rw [Chunker.flush, Chunker.ofPositions, pushChunk_off h, Option.bind_eq_bind, Option.bind_some,
    Chunker.ofPositions, Solo.Chunker.flush, List.map_append]
  rfl

theorem append_off (target overlap : ℕ) (st : Solo.Chunker) {stop : ℕ}
    (hstart : st.cursorStart ≤ stop) (hstop : stop ≤ text.length) :
    (Chunker.ofPositions text st).append text target overlap (off text stop) =
      some (Chunker.ofPositions text (st.append target overlap stop)) := by
  have hflush :
      ((⟨st.windows.map (Solo.pushChunk plain text), off text st.cursorStart, off text stop,
      approxTokenCount (stop - st.cursorStart)⟩ : Chunker).flush text) =
        some (Chunker.ofPositions text ⟨st.windows ++ [(st.cursorStart, stop)], st.cursorStart,
          stop, approxTokenCount (stop - st.cursorStart)⟩) :=
    flush_off ⟨st.windows, st.cursorStart, stop, approxTokenCount (stop - st.cursorStart)⟩ hstart
  unfold Chunker.append Solo.Chunker.append
  rw [Chunker.ofPositions]
  dsimp only
  rw [slice?_off hstart]
  simp only [Option.bind_eq_bind]
  rw [Option.bind_some, length_slice hstop]
  by_cases hfull : target ≤ approxTokenCount (stop - st.cursorStart)
  · rw [if_pos hfull, if_pos hfull, hflush, Option.bind_some, windowOverlapStart_off hstop]
    rfl
  · rw [if_neg hfull, if_neg hfull]
    rfl

theorem ofPositions_open {st : Solo.Chunker} {reached pos : ℕ} (h : st.Ready reached pos)
    (hpos : pos ≤ text.length) :
    (Chunker.ofPositions text st).cursorStart < (Chunker.ofPositions text st).cursorEnd ↔
    st.cursorStart < st.cursorEnd := by
  have hstart := h.start
  have hreached := h.reached_le
  refine off_lt_off ?_
  rcases h.window with ⟨hend, -⟩ | ⟨-, hend⟩
  · omega
  · omega

theorem step_off (htarget : 0 < target) (overlap : ℕ) {st : Solo.Chunker} {reached pos : ℕ}
    (h : st.Ready reached pos)
    {p : ℕ × ℕ} (hp : p.1 = pos) (hlt : pos < p.2) (hend : p.2 ≤ text.length) :
    (Chunker.ofPositions text st).step text target overlap (off text p.1, off text p.2) =
      some (Chunker.ofPositions text (st.step text target overlap p)) := by
  have hreached := h.reached_le
  have hstart := h.start
  have hpos : pos ≤ text.length := by omega
  have hcursor := ofPositions_open h hpos
  unfold Chunker.step Solo.Chunker.step
  dsimp only
  rw [slice?_off (by omega)]
  simp only [Option.bind_eq_bind]
  rw [Option.bind_some, length_slice hend]
  by_cases hover : saturatingU32 (target * 3) / 2 ≤ approxTokenCount (p.2 - p.1)
  · rw [if_pos hover, if_pos hover, slideWindow_off htarget overlap hend (by omega),
      windowOverlapStart_off hend]
    by_cases hopen : st.cursorStart < st.cursorEnd
    · rw [if_pos (hcursor.2 hopen), if_pos hopen, flush_off st hopen.le]
      simp only [Option.bind_some, Chunker.ofPositions, List.map_append]
      rfl
    · rw [if_neg (mt hcursor.1 hopen), if_neg hopen]
      simp only [Option.bind_some, Chunker.ofPositions, List.map_append]
      rfl
  · rw [if_neg hover, if_neg hover]
    have htokens : (Chunker.ofPositions text st).cursorTokens = st.cursorTokens := rfl
    have hclose : (Chunker.ofPositions text st).cursorEnd = off text st.cursorEnd := rfl
    rw [htokens, hclose]
    by_cases hopen : st.cursorStart < st.cursorEnd ∧
        saturatingU32 (target * 3) / 2 < (st.cursorTokens + approxTokenCount (p.2 - p.1)) % 2 ^ 32
    · have hcursorEnd := h.cursorEnd (h.open_iff.1 hopen.1)
      have hoverlap := windowOverlapStart_le st.cursorEnd overlap
      rw [if_pos ⟨hcursor.2 hopen.1, hopen.2⟩, if_pos hopen, flush_off st hopen.1.le,
        Option.bind_some, windowOverlapStart_off (by omega), Option.bind_some]
      have hle : Solo.windowOverlapStart st.cursorEnd overlap ≤ p.2 := by omega
      exact append_off target overlap
        { st.flush with cursorStart := Solo.windowOverlapStart st.cursorEnd overlap } hle hend
    · rw [if_neg (fun h => hopen ⟨hcursor.1 h.1, h.2⟩), if_neg hopen]
      exact append_off target overlap st (by omega) hend

theorem foldlM_step_off (htarget : 0 < target) (overlap : ℕ) {st : Solo.Chunker}
    {reached pos stop : ℕ}
    (h : st.Ready reached pos) {ps : List (ℕ × ℕ)} (hps : Tiles pos ps stop)
    (hend : stop ≤ text.length) :
    (ps.map fun p => (off text p.1, off text p.2)).foldlM (Chunker.step text target overlap)
    (Chunker.ofPositions text st) =
      some (Chunker.ofPositions text (ps.foldl (Solo.Chunker.step text target overlap) st)) := by
  induction ps generalizing st reached pos with
  | nil => rfl
  | cons p ps ih =>
    obtain ⟨hp, hlt, hps⟩ := hps
    obtain ⟨_, _, hready, -⟩ := step_ready text htarget overlap h hp hlt
    rw [List.map_cons, List.foldlM_cons, step_off htarget overlap h hp hlt (hps.le.trans hend),
      Option.bind_eq_bind, Option.bind_some]
    exact ih hready hps

/-! ### Paragraphs -/

theorem splitParagraphs_skip {b start i : ℕ} (bs : List ℕ) (hb : b ≠ 10) (h : start ≤ i) :
    splitParagraphs (b :: bs) start i = splitParagraphs bs start (i + 1) := by
  cases bs with
  | nil => rw [splitParagraphs, splitParagraphs, if_pos (Nat.lt_succ_of_le h)]
  | cons b' bs => rw [splitParagraphs, if_neg (fun h => hb h.1)]

theorem utf8Char_ne_newline {c : Char} (hc : c ≠ '\n') {b : ℕ} (hb : b ∈ Text.utf8Char c) :
    b ≠ 10 := by
  rcases Nat.lt_or_ge c.toNat 128 with h | h
  · rw [utf8Char_ascii h, List.mem_singleton] at hb
    rintro rfl
    exact hc (Char.toNat_inj.1 hb.symm)
  · have := utf8Char_high h hb
    omega

/-- A character that is no newline is passed over. -/
theorem splitParagraphs_char {c : Char} (hc : c ≠ '\n') {start i : ℕ} (bs : List ℕ)
    (h : start ≤ i) :
    splitParagraphs (Text.utf8Char c ++ bs) start i = splitParagraphs bs start (i + width c) := by
  have hskip (l : List ℕ) (hl : ∀ b ∈ l, b ≠ 10) (j : ℕ) (hj : start ≤ j) :
      splitParagraphs (l ++ bs) start j = splitParagraphs bs start (j + l.length) := by
    induction l generalizing j with
    | nil => rfl
    | cons b l ih =>
      obtain ⟨hb, hl⟩ := List.forall_mem_cons.1 hl
      rw [List.cons_append, splitParagraphs_skip _ hb hj, ih hl _ (hj.trans (Nat.le_succ j)),
        List.length_cons]
      congr 1
      omega
  exact hskip _ (fun b hb => utf8Char_ne_newline hc hb) i h

theorem utf8Char_newline : Text.utf8Char '\n' = [10] := rfl

/-- The newlines that a text starts with are bytes of their own. -/
theorem utf8_newlines (cs : List Char) :
    (Text.utf8 cs).takeWhile (· = 10) = List.replicate (cs.takeWhile (· = '\n')).length 10 ∧
      (Text.utf8 cs).dropWhile (· = 10) = Text.utf8 (cs.dropWhile (· = '\n')) := by
  induction cs with
  | nil => exact ⟨rfl, rfl⟩
  | cons c cs ih =>
    by_cases hc : c = '\n'
    · subst hc
      rw [utf8_cons, utf8Char_newline, List.singleton_append]
      simp only [List.takeWhile_cons, List.dropWhile_cons, decide_true, if_true, ih.1, ih.2,
        List.length_cons, List.replicate_succ, and_self]
    · obtain ⟨b, hb, -⟩ := utf8Char_head c
      obtain ⟨rest, hrest⟩ : ∃ rest, Text.utf8Char c = b :: rest := List.head?_eq_some_iff.1 hb
      have hne : b ≠ 10 := utf8Char_ne_newline hc (List.mem_of_head? hb)
      rw [utf8_cons, hrest, List.cons_append, List.takeWhile_cons_of_neg (by simpa using hne),
        List.dropWhile_cons_of_neg (by simpa using hne),
        List.takeWhile_cons_of_neg (by simpa using hc),
        List.dropWhile_cons_of_neg (by simpa using hc), utf8_cons, hrest]
      exact ⟨rfl, rfl⟩

theorem off_of_drop {i : ℕ} {l l' : List Char} (h : text.drop i = l ++ l') :
    off text (i + l.length) = off text i + len l ∧ text.drop (i + l.length) = l' := by
  constructor
  · rw [off, List.take_add, h, List.take_left, len_append]
    rfl
  · rw [← List.drop_drop, h, List.drop_left]

theorem len_newlines {l : List Char} (h : ∀ c ∈ l, c = '\n') : len l = l.length := by
  induction l with
  | nil => rfl
  | cons c l ih =>
    obtain ⟨rfl, hl⟩ := List.forall_mem_cons.1 h
    rw [len_cons, ih hl, List.length_cons, Nat.add_comm]
    rfl

theorem splitParagraphs_off (cs : List Char) (start i : ℕ) (h : start ≤ i) (hcs : text.drop i = cs)
    (hi : i + cs.length = text.length) :
    splitParagraphs (Text.utf8 cs) (off text start) (off text i) =
      (Solo.splitParagraphs cs start i).map fun p => (off text p.1, off text p.2) := by
  have hle : off text start ≤ off text i := (off_le_off (by omega)).2 h
  induction cs, start, i using Solo.splitParagraphs.induct with
  | case1 start i hlt =>
    have hend : i ≤ text.length := hi.le
    rw [Solo.splitParagraphs, if_pos hlt]
    change splitParagraphs [] _ _ = _
    rw [splitParagraphs, if_pos ((off_lt_off hend).2 hlt)]
    rfl
  | case2 start i hlt =>
    have hend : i ≤ text.length := hi.le
    rw [Solo.splitParagraphs, if_neg hlt]
    change splitParagraphs [] _ _ = _
    rw [splitParagraphs, if_neg (mt (off_lt_off hend).1 hlt)]
    rfl
  | case3 start i c =>
    have hsplit : text.drop i = [c] ++ [] := hcs
    obtain ⟨hoff, -⟩ := off_of_drop hsplit
    rw [len_cons, len_nil, Nat.add_zero, List.length_singleton] at hoff
    rw [Solo.splitParagraphs, utf8_cons]
    by_cases hc : c = '\n'
    · subst hc
      change splitParagraphs [10] _ _ = _
      rw [splitParagraphs, List.map_cons, hoff]
      rfl
    · have hpos := width_pos c
      rw [splitParagraphs_char hc _ hle]
      change splitParagraphs [] _ _ = _
      rw [splitParagraphs, if_pos (by omega), List.map_cons, hoff]
      rfl
  | case4 start i a b rest hnl j ih =>
    obtain ⟨rfl, rfl⟩ := hnl
    have hrest : text.drop i = ('\n' :: '\n' :: rest.takeWhile (· = '\n')) ++
        rest.dropWhile (· = '\n') := by
      rw [hcs, List.cons_append, List.cons_append, List.takeWhile_append_dropWhile]
    obtain ⟨hoff, hdrop⟩ := off_of_drop hrest
    have hj : i + ('\n' :: '\n' :: rest.takeWhile (· = '\n')).length = j := by
      simp only [List.length_cons, j]
      omega
    have hall : ∀ c ∈ '\n' :: '\n' :: rest.takeWhile (· = '\n'), c = '\n' := by
      simp only [List.mem_cons, forall_eq_or_imp, true_and]
      exact fun c hc => by simpa using List.mem_takeWhile_imp hc
    have hlen : (rest.takeWhile (· = '\n')).length + (rest.dropWhile (· = '\n')).length =
        rest.length := by
      rw [← List.length_append, List.takeWhile_append_dropWhile]
    rw [hj, len_newlines hall] at hoff
    rw [hj] at hdrop
    have hend : j + (rest.dropWhile (· = '\n')).length = text.length := by
      simp only [List.length_cons] at hi
      omega
    have hjoff : off text i + 2 + (rest.takeWhile (· = '\n')).length = off text j := by
      rw [hoff, List.length_cons, List.length_cons]
      omega
    obtain ⟨htake, hdropBytes⟩ := utf8_newlines rest
    rw [Solo.splitParagraphs, if_pos ⟨rfl, rfl⟩, utf8_cons, utf8_cons, utf8Char_newline]
    change splitParagraphs (10 :: 10 :: Text.utf8 rest) _ _ = _
    rw [splitParagraphs, if_pos ⟨rfl, rfl⟩, htake, hdropBytes, List.length_replicate]
    dsimp only
    rw [hjoff, ih le_rfl hdrop hend le_rfl]
    rfl
  | case5 start i a b rest hnl ih =>
    have hsplit : text.drop i = [a] ++ b :: rest := hcs
    obtain ⟨hoff, hdrop⟩ := off_of_drop hsplit
    rw [len_cons, len_nil, Nat.add_zero, List.length_singleton] at hoff
    rw [List.length_singleton] at hdrop
    rw [List.length_cons] at hi
    rw [Solo.splitParagraphs, if_neg hnl, ← ih (h.trans (Nat.le_succ i)) hdrop (by omega)
      (by omega), utf8_cons, hoff]
    by_cases ha : a = '\n'
    · subst ha
      have hb : b ≠ '\n' := fun hb => hnl ⟨rfl, hb⟩
      obtain ⟨b₀, hhead, -⟩ := utf8Char_head b
      obtain ⟨bs, hbs⟩ : ∃ bs, Text.utf8Char b = b₀ :: bs := List.head?_eq_some_iff.1 hhead
      have hne : b₀ ≠ 10 := utf8Char_ne_newline hb (List.mem_of_head? hhead)
      rw [utf8_cons, hbs]
      change splitParagraphs (10 :: b₀ :: (bs ++ Text.utf8 rest)) _ _ = _
      rw [splitParagraphs, if_neg (fun h => hne h.2)]
      rfl
    · exact splitParagraphs_char ha _ hle

/-! ### The text -/

/-- The chunker never slices inside a character, and cuts where counting characters cuts. -/
theorem chunkText_eq (config : ChunkConfig) (text : List Char) :
    chunkText config text = some ((chunkWindows config text).map (Solo.pushChunk plain text)) := by
  by_cases hne : text = []
  · subst hne
    rfl
  have hempty : text.isEmpty = false := by simpa using hne
  unfold chunkText
  rw [hempty, if_neg Bool.false_ne_true]
  dsimp only
  change (if approxTokenCount text.length ≤ config.threshold then _ else _) = _
  by_cases hshort : approxTokenCount text.length ≤ config.threshold
  · have hwhole : slice text 0 text.length = text := by rw [slice, List.take_length, List.drop_zero]
    have hplain : text.map plain.char = text := List.map_id text
    rw [if_pos hshort, chunkWindows_of_le config hne hshort, List.map_singleton, Solo.pushChunk,
      hwhole, hplain, byteOffset, byteOffset, List.take_length]
    rfl
  · have hps := splitParagraphs_tiles text 0 0 le_rfl
    rw [Nat.zero_add] at hps
    have hready : Solo.Chunker.Ready ⟨[], 0, 0, 0⟩ 0 0 := ⟨rfl, by simp, le_rfl, .inl ⟨rfl, rfl⟩⟩
    have hparagraphs : splitParagraphs (Text.utf8 text) 0 0 =
        (Solo.splitParagraphs text 0 0).map fun p => (off text p.1, off text p.2) := by
      rw [← splitParagraphs_off text 0 0 le_rfl rfl (Nat.zero_add _), off_zero]
    have hloop := foldlM_step_off config.target_pos config.overlap hready hps le_rfl
    have hinit : Chunker.ofPositions text ⟨[], 0, 0, 0⟩ = ⟨[], 0, 0, 0⟩ := by
      rw [Chunker.ofPositions, off_zero]; rfl
    obtain ⟨_, _, hdone, -⟩ := foldl_step_ready text config.target_pos config.overlap hready hps
    rw [if_neg hshort, chunkWindows_of_lt config (not_le.1 hshort), hparagraphs]
    change (List.foldlM (Chunker.step text config.target config.overlap) _ _).bind _ = _
    have hcursor := ofPositions_open hdone le_rfl
    rw [← chunked] at hloop hcursor
    rw [← hinit, hloop, Option.bind_some]
    by_cases hopen : (chunked config text).cursorStart < (chunked config text).cursorEnd
    · rw [if_pos (hcursor.2 hopen), if_pos hopen, flush_off _ hopen.le]
      rfl
    · rw [if_neg (mt hcursor.1 hopen), if_neg hopen]
      rfl

/-! ### The chunks of a text -/

/-- A chunk is the text between its offsets, which are boundaries of it. -/
structure Cut (text : List Char) (c : ChunkSpec Char) : Prop where
  nonempty : c.content ≠ []
  startBoundary : isCharBoundary text c.startOffset = true
  endBoundary : isCharBoundary text c.endOffset = true
  content : slice? text c.startOffset c.endOffset = some c.content

/-- The bytes of a document from its chunks: each is laid over what comes before its start. -/
def reassemble (chunks : List (ChunkSpec Char)) : List ℕ :=
  chunks.foldl (fun bytes c => bytes.take c.startOffset ++ Text.utf8 c.content) []

structure CoversText (text : List Char) (chunks : List (ChunkSpec Char)) : Prop where
  cut : ∀ c ∈ chunks, Cut text c
  first : ∀ c ∈ chunks.head?, c.startOffset = 0
  last : ∀ c ∈ chunks.getLast?, c.endOffset = len text
  chained : chunks.IsChain fun c d => d.startOffset ≤ c.endOffset
  reassembled : reassemble chunks = Text.utf8 text

theorem byteOffset_eq (hsize : len text < 2 ^ 32) (p : ℕ) : byteOffset text p = off text p := by
  have hle : off text p ≤ len text := by
    have hlen := len_append (text.take p) (text.drop p)
    rw [List.take_append_drop] at hlen
    exact hlen ▸ Nat.le_add_right _ _
  unfold byteOffset saturatingU32
  change min (off text p) (2 ^ 32 - 1) = _
  omega

theorem utf8_take_off {a : ℕ} {p : ℕ} (h : p ≤ a) : (Text.utf8 (text.take a)).take (off text p) =
    Text.utf8 (text.take p) := by
  rw [take_eq_append_slice h, utf8_append, off, len, List.take_left]

theorem foldl_reassemble (hsize : len text < 2 ^ 32) {ws : List (ℕ × ℕ)} {a b : ℕ}
    (h : Covers a ws b) :
    (ws.map (Solo.pushChunk plain text)).foldl (fun bytes c => bytes.take c.startOffset ++
      Text.utf8 c.content) (Text.utf8 (text.take a)) = Text.utf8 (text.take b) := by
  induction ws generalizing a with
  | nil =>
    obtain rfl : a = b := h
    rfl
  | cons w ws ih =>
    obtain ⟨hstart, hlt, hrest⟩ := h
    have hplain : text.map plain.char = text := List.map_id text
    rw [List.map_cons, List.foldl_cons, ← ih hrest, Solo.pushChunk, hplain, byteOffset_eq hsize,
      utf8_take_off hstart, ← utf8_append, ← take_eq_append_slice hlt.le]

/-- The chunks of a text of less than 4 GiB cover it. -/
theorem chunkText_covers (config : ChunkConfig) {text : List Char} (hsize : len text < 2 ^ 32) :
    ∃ chunks, chunkText config text = some chunks ∧ (text ≠ [] → chunks ≠ []) ∧
    CoversText text chunks := by
  have hplain : text.map plain.char = text := List.map_id text
  have hoffsets (w : ℕ × ℕ) : (Solo.pushChunk plain text w).startOffset = off text w.1 ∧
      (Solo.pushChunk plain text w).endOffset = off text w.2 := by
    rw [Solo.pushChunk, hplain]
    exact ⟨byteOffset_eq hsize _, byteOffset_eq hsize _⟩
  refine ⟨_, chunkText_eq config text, fun hne => ?_, ?_⟩
  · obtain ⟨hcov, -, -⟩ := chunkWindows_spec config hne
    intro hnil
    rw [List.map_eq_nil_iff.1 hnil] at hcov
    exact hne (List.length_eq_zero_iff.1 hcov.symm)
  rcases eq_or_ne text [] with rfl | hne
  · exact ⟨by simp [chunkWindows], by simp [chunkWindows], by simp [chunkWindows], .nil, rfl⟩
  obtain ⟨hcov, hwithin, -⟩ := chunkWindows_spec config hne
  refine ⟨fun c hc => ?_, fun c hc => ?_, fun c hc => ?_, ?_, ?_⟩
  · obtain ⟨w, hw, rfl⟩ := List.mem_map.1 hc
    obtain ⟨hstart, hend⟩ := hoffsets w
    have hlt := hcov.lt hw
    refine ⟨?_, ?_, ?_, ?_⟩
    · refine List.ne_nil_of_length_pos ?_
      change 0 < (slice text w.1 w.2).length
      rw [length_slice (hwithin w hw)]
      omega
    · rw [hstart]
      exact isCharBoundary_off _
    · rw [hend]
      exact isCharBoundary_off _
    · rw [hstart, hend]
      exact slice?_off hlt.le
  · rw [List.head?_map] at hc
    obtain ⟨w, hw, rfl⟩ := Option.mem_map.1 hc
    rw [(hoffsets w).1, Nat.le_zero.1 (hcov.head_le hw), off_zero]
  · rw [List.getLast?_map] at hc
    obtain ⟨w, hw, rfl⟩ := Option.mem_map.1 hc
    rw [(hoffsets w).2, hcov.last_eq hw, off_length]
  · rw [List.isChain_map]
    refine hcov.isChain.imp_of_mem_imp fun v w hv _ hle => ?_
    rw [(hoffsets w).1, (hoffsets v).2]
    exact (off_le_off (hle.trans (hwithin v hv))).2 hle
  · have h := foldl_reassemble hsize hcov
    rw [List.take_zero, List.take_length] at h
    exact h

/-- Two tokens a window, one of them overlap, over letters of two bytes. -/
def smallConfig : ChunkConfig := ⟨2, 1, by decide, by decide⟩

theorem chunkText_covers_umlauts :
    ∃ chunks, chunkText smallConfig "äöü äöü äöü äöü. äöü".toList = some chunks ∧
      ("äöü äöü äöü äöü. äöü".toList ≠ [] → chunks ≠ []) ∧
      CoversText "äöü äöü äöü äöü. äöü".toList chunks :=
  chunkText_covers smallConfig (by decide)

end Bytes

end Solo
