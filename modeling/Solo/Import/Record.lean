import Mathlib.Data.List.Basic
import Mathlib.Data.List.Infix
import Mathlib.Data.List.TakeWhile
import Solo.Lib.Slug

/-!
# Import records (`schema_import.rs`)

A conversation or a bookmark of an export becomes a record with a cleaned title and a Markdown body,
which is written to a file that is named after the title and the hash of the record's source id.
-/

namespace Solo

open Text

namespace Import

structure ImportRecord where
  sourceId : List Char
  title : List Char
  createdAt : Option (List Char)
  updatedAt : Option (List Char)
  body : List Char
  deriving DecidableEq

structure SchemaImportScan where
  recordsScanned : Nat
  filteredRecords : Nat
  skippedRecords : Nat
  records : List ImportRecord
  deriving DecidableEq

/-- `split_whitespace`. -/
def splitWhitespace (cs : List Char) : List (List Char) :=
  (cs.splitOnP isWhitespace).filter (· ≠ [])

def cleanTitle (title : List Char) : List Char :=
  let title := [' '].intercalate (splitWhitespace title)
  if title.isEmpty then "Untitled".toList else title

def pushMetadata (body : List Char) (key : String) (value : List Char) : List Char :=
  body ++ "- ".toList ++ key.toList ++ ": ".toList ++ trimList value ++ ['\n']

/-! ### Cleaned titles -/

variable {cs : List Char}

theorem splitWhitespace_cons {c : Char} (hc : isWhitespace c = true) (cs : List Char) :
    splitWhitespace (c :: cs) = splitWhitespace cs := by
  unfold splitWhitespace
  rw [List.splitOnP_cons_eq_if_modifyHead, if_pos hc, List.filter_cons_of_neg (by simp)]

theorem splitWhitespace_snoc {c : Char} (hc : isWhitespace c = true) (cs : List Char) :
    splitWhitespace (cs ++ [c]) = splitWhitespace cs := by
  unfold splitWhitespace
  rw [List.splitOnP_append_cons cs [] hc, List.filter_append, List.splitOnP_nil]
  simp

theorem splitWhitespace_dropWhile (cs : List Char) : splitWhitespace (cs.dropWhile isWhitespace) =
    splitWhitespace cs := by
  induction cs with
  | nil => rfl
  | cons c cs ih =>
    cases hc : isWhitespace c with
    | true => rw [List.dropWhile_cons_of_pos hc, ih, splitWhitespace_cons hc]
    | false => rw [List.dropWhile_cons_of_neg (by simp [hc])]

theorem splitWhitespace_rdropWhile (cs : List Char) :
    splitWhitespace (cs.reverse.dropWhile isWhitespace).reverse = splitWhitespace cs := by
  induction cs using List.reverseRecOn with
  | nil => rfl
  | append_singleton cs c ih =>
    rw [List.reverse_concat]
    cases hc : isWhitespace c with
    | true => rw [List.dropWhile_cons_of_pos hc, ih, splitWhitespace_snoc hc]
    | false =>
      rw [List.dropWhile_cons_of_neg (by simp [hc]), List.reverse_cons, List.reverse_reverse]

theorem cleanTitle_trimList (cs : List Char) : cleanTitle (trimList cs) = cleanTitle cs := by
  unfold cleanTitle trimList trimMatches
  rw [splitWhitespace_rdropWhile, splitWhitespace_dropWhile]

/-- The size of a list of words, with a separator after each. -/
def spread : List (List Char) → Nat
  | [] => 0
  | w :: L => w.length + 1 + spread L

theorem length_intercalate {L : List (List Char)} (h : L ≠ []) :
    ([' '].intercalate L).length + 1 = spread L := by
  induction L with
  | nil => exact absurd rfl h
  | cons w L ih =>
    cases L with
    | nil => simp [spread]
    | cons v L =>
      have hv := ih (List.cons_ne_nil _ _)
      rw [List.intercalate_cons_cons, List.length_append, List.length_append]
      rw [spread, ← hv, List.length_singleton]
      omega

theorem spread_splitOnP (cs : List Char) : spread (cs.splitOnP isWhitespace) = cs.length + 1 := by
  induction cs with
  | nil => rfl
  | cons c cs ih =>
    rw [List.splitOnP_cons_eq_if_modifyHead]
    split_ifs
    · rw [List.length_cons, ← ih, spread, List.length_nil]
      omega
    · obtain ⟨w, L, hL⟩ := List.exists_cons_of_ne_nil (List.splitOnP_ne_nil isWhitespace cs)
      rw [hL, spread] at ih
      rw [hL, List.modifyHead_cons, spread, List.length_cons, List.length_cons]
      omega

theorem spread_filter_le (p : List Char → Bool) (L : List (List Char)) :
    spread (L.filter p) ≤ spread L := by
  induction L with
  | nil => exact Nat.le_refl _
  | cons w L ih =>
    rw [List.filter_cons, spread]
    split_ifs
    · rw [spread]
      omega
    · omega

/-- The words are not empty, and have no white space. -/
theorem of_mem_splitWhitespace {w : List Char} (h : w ∈ splitWhitespace cs) :
    w ≠ [] ∧ ∀ c ∈ w, isWhitespace c = false := by
  obtain ⟨hmem, hne⟩ := List.mem_filter.1 h
  refine ⟨of_decide_eq_true hne, ?_⟩
  clear h hne
  induction cs generalizing w with
  | nil =>
    rw [List.splitOnP_nil, List.mem_singleton] at hmem
    rw [hmem]
    exact fun c hc => absurd hc List.not_mem_nil
  | cons d cs ih =>
    rw [List.splitOnP_cons_eq_if_modifyHead] at hmem
    split_ifs at hmem with hd
    · rcases List.mem_cons.1 hmem with rfl | hw
      · exact fun c hc => absurd hc List.not_mem_nil
      · exact ih hw
    · obtain ⟨v, L, hL⟩ := List.exists_cons_of_ne_nil (List.splitOnP_ne_nil isWhitespace cs)
      rw [hL, List.modifyHead_cons] at hmem
      rcases List.mem_cons.1 hmem with rfl | hw
      · have hv := ih (w := v) (by rw [hL]; exact List.mem_cons_self)
        intro c hc
        rcases List.mem_cons.1 hc with rfl | hc
        · simpa using hd
        · exact hv c hc
      · exact ih (by rw [hL]; exact List.mem_cons_of_mem _ hw)

/-- A title with a word in it is cleaned to its words. -/
theorem cleanTitle_eq (h : splitWhitespace cs ≠ []) :
    cleanTitle cs = [' '].intercalate (splitWhitespace cs) ∧
    ∃ c ∈ cleanTitle cs, isWhitespace c = false := by
  obtain ⟨w, L, hwords⟩ := List.exists_cons_of_ne_nil h
  obtain ⟨hw, hplain⟩ :=
    of_mem_splitWhitespace (hwords ▸ List.mem_cons_self : w ∈ splitWhitespace cs)
  obtain ⟨c, w', rfl⟩ := List.exists_cons_of_ne_nil hw
  have hfirst : ∃ rest, [' '].intercalate (splitWhitespace cs) = c :: rest := by
    rw [hwords]
    cases L with
    | nil => exact ⟨w', List.intercalate_singleton⟩
    | cons v L => exact ⟨_, by rw [List.intercalate_cons_cons, List.cons_append, List.cons_append]⟩
  obtain ⟨rest, hrest⟩ := hfirst
  have heq : cleanTitle cs = [' '].intercalate (splitWhitespace cs) := by
    unfold cleanTitle
    dsimp only
    rw [if_neg]
    rw [hrest]
    exact Bool.false_ne_true
  exact ⟨heq, c, by rw [heq, hrest]; exact List.mem_cons_self, hplain c List.mem_cons_self⟩

theorem length_cleanTitle_le (h : splitWhitespace cs ≠ []) :
    (cleanTitle cs).length ≤ cs.length := by
  have hspread := (length_intercalate h).trans_le (spread_filter_le _ _)
  rw [spread_splitOnP] at hspread
  rw [(cleanTitle_eq h).1]
  omega

/-- No cleaned title is blank. -/
theorem cleanTitle_not_blank (cs : List Char) : ∃ c ∈ cleanTitle cs, isWhitespace c = false := by
  by_cases h : splitWhitespace cs = []
  · have huntitled : cleanTitle cs = "Untitled".toList := by
      unfold cleanTitle
      rw [h]
      rfl
    rw [huntitled]
    exact ⟨'U', by decide, by decide⟩
  · exact (cleanTitle_eq h).2

theorem trimList_eq_nil : trimList cs = [] ↔ ∀ c ∈ cs, isWhitespace c = true := by
  unfold trimList trimMatches
  rw [List.reverse_eq_nil_iff, List.dropWhile_eq_nil_iff]
  constructor
  · intro h c hc
    by_contra hplain
    have hdrop : c ∈ cs.dropWhile isWhitespace := by
      rw [← List.takeWhile_append_dropWhile (p := isWhitespace) (l := cs), List.mem_append] at hc
      exact hc.resolve_left fun htake => hplain (List.mem_takeWhile_imp htake)
    exact hplain (h c (List.mem_reverse.2 hdrop))
  · intro h c hc
    exact h c ((List.dropWhile_sublist _).subset (List.mem_reverse.1 hc))

theorem isInfix_trimList (cs : List Char) : trimList cs <:+: cs := by
  unfold trimList trimMatches
  refine List.IsInfix.trans ?_ (List.dropWhile_suffix isWhitespace).isInfix
  have hsuffix := List.dropWhile_suffix isWhitespace (l := (cs.dropWhile isWhitespace).reverse)
  rw [← List.reverse_prefix, List.reverse_reverse] at hsuffix
  exact hsuffix.isInfix

end Import

end Solo
