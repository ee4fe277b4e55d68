import Solo.Ingest.Chunk
import Solo.Lib.Ranges

/-!
# The windows of a text (`chunk_text`, `slide_window`, `find_sentence_break`)

Paragraphs tile a text. A window ends after it starts and inside its paragraph, so sliding over a
paragraph covers it, and the loop over the paragraphs covers the text (`chunkWindows_covers`).
-/

namespace Solo

open Ranges

/-! ### Paragraphs -/

theorem splitParagraphs_tiles (cs : List Char) (start i : ℕ) (h : start ≤ i) :
    Tiles start (splitParagraphs cs start i) (i + cs.length) := by
  induction cs, start, i using splitParagraphs.induct with
  | case1 start i hlt =>
    rw [splitParagraphs, if_pos hlt]
    exact ⟨rfl, hlt, rfl⟩
  | case2 start i hlt =>
    rw [splitParagraphs, if_neg hlt]
    exact Nat.le_antisymm h (not_lt.1 hlt)
  | case3 start i c =>
    rw [splitParagraphs]
    exact ⟨rfl, Nat.lt_succ_of_le h, rfl⟩
  | case4 start i a b rest hnl j ih =>
    rw [splitParagraphs, if_pos hnl]
    have hlen : (rest.takeWhile (· = '\n')).length + (rest.dropWhile (· = '\n')).length =
        rest.length := by
      rw [← List.length_append, List.takeWhile_append_dropWhile]
    have hj : i < j := by omega
    refine ⟨rfl, h.trans_lt hj, ?_⟩
    have hend : j + (rest.dropWhile (· = '\n')).length = i + (a :: b :: rest).length := by
      simp only [List.length_cons]
      omega
    exact hend ▸ ih le_rfl
  | case5 start i a b rest hnl ih =>
    rw [splitParagraphs, if_neg hnl]
    have hend : i + 1 + (b :: rest).length = i + (a :: b :: rest).length := by
      simp only [List.length_cons]
      omega
    exact hend ▸ ih (h.trans (Nat.le_succ i))

/-! ### Sentence ends -/

variable {cs : List Char}

/-- The character at `i` ends a sentence. -/
def EndsSentence (cs : List Char) (i : ℕ) : Prop := (cs[i]?).any isSentenceEnd = true

instance (cs : List Char) (i : ℕ) : Decidable (EndsSentence cs i) :=
  inferInstanceAs (Decidable ((cs[i]?).any isSentenceEnd = true))

theorem sentenceBreak_eq_some {lookStart i k : ℕ} :
    sentenceBreak cs lookStart i = some k ↔
      lookStart < k ∧ k ≤ i ∧ EndsSentence cs (k - 1) ∧ ∀ j, k ≤ j → j < i →
      ¬ EndsSentence cs j := by
  induction i with
  | zero =>
    simp only [sentenceBreak, reduceCtorEq, false_iff]
    omega
  | succ i ih =>
    rw [sentenceBreak]
    split
    · next hle =>
      simp only [reduceCtorEq, false_iff]
      omega
    split
    · next hle hend =>
      rw [Option.some.injEq]
      constructor
      · rintro rfl
        exact ⟨Nat.lt_of_not_le hle, le_rfl, hend, fun j hj hj' => absurd hj (not_le.2 hj')⟩
      · rintro ⟨-, hk, -, hnone⟩
        by_contra hne
        exact hnone i (by omega) (Nat.lt_succ_self i) hend
    · next hle hend =>
      rw [ih]
      constructor
      · rintro ⟨hlook, hk, hk', hnone⟩
        refine ⟨hlook, hk.trans (Nat.le_succ i), hk', fun j hj hj' => ?_⟩
        rcases Nat.lt_succ_iff_lt_or_eq.1 hj' with hj' | rfl
        · exact hnone j hj hj'
        · exact hend
      · rintro ⟨hlook, hk, hk', hnone⟩
        have hki : k ≠ i + 1 := by
          rintro rfl
          exact hend hk'
        exact ⟨hlook, by omega, hk', fun j hj hj' => hnone j hj (hj'.trans (Nat.lt_succ_self i))⟩

theorem sentenceBreak_eq_none {lookStart i : ℕ} :
    sentenceBreak cs lookStart i = none ↔ ∀ j, lookStart ≤ j → j < i → ¬ EndsSentence cs j := by
  induction i with
  | zero => simp [sentenceBreak]
  | succ i ih =>
    rw [sentenceBreak]
    split
    · next hle =>
      simp only [true_iff]
      intro j hj hj'
      omega
    split
    · next hle hend =>
      simp only [reduceCtorEq, false_iff, not_forall]
      exact ⟨i, by omega, Nat.lt_succ_self i, fun h => h hend⟩
    · next hle hend =>
      rw [ih]
      constructor
      · intro h j hj hj'
        rcases Nat.lt_succ_iff_lt_or_eq.1 hj' with hj' | rfl
        · exact h j hj hj'
        · exact hend
      · exact fun h j hj hj' => h j hj (hj'.trans (Nat.lt_succ_self i))

/-! ### One window -/

section Window

variable {windowStart rangeEnd target : ℕ}

/-- Where a window ends before it is moved to a sentence end. -/
def naturalEnd (windowStart rangeEnd target : ℕ) : ℕ :=
  if target * 4 ≤ rangeEnd - windowStart then windowStart + (target * 4 - 1) else rangeEnd

theorem windowEnd_eq (cs : List Char) (windowStart rangeEnd target : ℕ) :
    windowEnd cs windowStart rangeEnd (target * 4) =
      if (if naturalEnd windowStart rangeEnd target < rangeEnd then
            findSentenceBreak cs windowStart (naturalEnd windowStart rangeEnd target)
              (target * 4 / 10)
          else naturalEnd windowStart rangeEnd target) ≤ windowStart then windowStart + 1
      else if naturalEnd windowStart rangeEnd target < rangeEnd then
        findSentenceBreak cs windowStart (naturalEnd windowStart rangeEnd target) (target * 4 / 10)
      else naturalEnd windowStart rangeEnd target := rfl

/-- How far back a window looks for a sentence end. -/
def lookBack (target : ℕ) : ℕ := max (target * 4 / 10) 1

/-- A window that does not reach the end of its range ends after the last sentence end in its reach,
or where it would. -/
theorem windowEnd_cases (cs : List Char) (htarget : 0 < target) (h : windowStart < rangeEnd) :
    (rangeEnd < windowStart + target * 4 ∧ windowEnd cs windowStart rangeEnd (target * 4) =
      rangeEnd) ∨
      (windowStart + target * 4 ≤ rangeEnd ∧ ∃ natural, natural = windowStart + (target * 4 - 1) ∧
        ((EndsSentence cs (windowEnd cs windowStart rangeEnd (target * 4) - 1) ∧
            natural - lookBack target < windowEnd cs windowStart rangeEnd (target * 4) ∧
            windowEnd cs windowStart rangeEnd (target * 4) ≤ natural ∧
            ∀ j, windowEnd cs windowStart rangeEnd (target * 4) ≤ j → j < natural →
              ¬ EndsSentence cs j) ∨
          windowEnd cs windowStart rangeEnd (target * 4) = natural ∧
            ∀ j, natural - lookBack target ≤ j → j < natural → ¬ EndsSentence cs j)) := by
  by_cases hlast : rangeEnd < windowStart + target * 4
  · refine .inl ⟨hlast, ?_⟩
    have hnatural : naturalEnd windowStart rangeEnd target = rangeEnd := if_neg (by omega)
    rw [windowEnd_eq, hnatural, if_neg (lt_irrefl _), if_neg (by omega)]
  · refine .inr ⟨not_lt.1 hlast, _, rfl, ?_⟩
    have hback : findSentenceBreak cs windowStart (windowStart + (target * 4 - 1))
        (target * 4 / 10) =
        (sentenceBreak cs (windowStart + (target * 4 - 1) - lookBack target)
          (windowStart + (target * 4 - 1))).getD (windowStart + (target * 4 - 1)) := by
      unfold findSentenceBreak lookBack
      dsimp only
      rw [Nat.add_sub_cancel_left, if_neg (by omega), if_neg (by omega)]
    have hnatural : windowEnd cs windowStart rangeEnd (target * 4) =
        (sentenceBreak cs (windowStart + (target * 4 - 1) - lookBack target)
          (windowStart + (target * 4 - 1))).getD (windowStart + (target * 4 - 1)) := by
      have hfull : naturalEnd windowStart rangeEnd target = windowStart + (target * 4 - 1) :=
        if_pos (by omega)
      have hfits : windowStart + (target * 4 - 1) < rangeEnd := by omega
      rw [windowEnd_eq, hfull]
      simp only [if_pos hfits, hback]
      refine if_neg ?_
      cases hbreak : sentenceBreak cs (windowStart + (target * 4 - 1) - lookBack target)
          (windowStart + (target * 4 - 1)) with
      | none =>
        rw [Option.getD_none]
        omega
      | some k =>
        have hk := (sentenceBreak_eq_some.1 hbreak).1
        rw [Option.getD_some]
        unfold lookBack at hk
        omega
    rw [hnatural]
    cases hbreak : sentenceBreak cs (windowStart + (target * 4 - 1) - lookBack target)
        (windowStart + (target * 4 - 1)) with
    | none =>
      rw [Option.getD_none]
      exact .inr ⟨rfl, sentenceBreak_eq_none.1 hbreak⟩
    | some k =>
      obtain ⟨hlook, hle, hend, hnone⟩ := sentenceBreak_eq_some.1 hbreak
      rw [Option.getD_some]
      exact .inl ⟨hend, hlook, hle, hnone⟩

theorem windowEnd_bounds (cs : List Char) (htarget : 0 < target) (h : windowStart < rangeEnd) :
    windowStart < windowEnd cs windowStart rangeEnd (target * 4) ∧
      windowEnd cs windowStart rangeEnd (target * 4) ≤ rangeEnd ∧
      windowEnd cs windowStart rangeEnd (target * 4) ≤ windowStart + (target * 4 - 1) := by
  rcases windowEnd_cases cs htarget h with ⟨hlast, hstop⟩ | ⟨hfits, natural, rfl,
    ⟨-, hlook, hle, -⟩ | ⟨hstop, -⟩⟩
  · rw [hstop]
    omega
  · unfold lookBack at hlook
    omega
  · rw [hstop]
    omega

/-- Where the next window starts. -/
def nextStart (overlap windowStart stop : ℕ) : ℕ :=
  max (windowOverlapStart stop overlap) (windowStart + 1)

theorem windowOverlapStart_le (stop overlap : ℕ) : windowOverlapStart stop overlap ≤ stop := by
  unfold windowOverlapStart
  split <;> omega

theorem nextStart_le (overlap : ℕ) {stop : ℕ} (h : windowStart < stop) :
    nextStart overlap windowStart stop ≤ stop :=
  max_le (windowOverlapStart_le stop overlap) h

theorem slideWindow_eq (overlap : ℕ) (h : windowStart < rangeEnd) :
    slideWindow cs rangeEnd target overlap windowStart =
      (windowStart, windowEnd cs windowStart rangeEnd (target * 4)) ::
        if rangeEnd ≤ windowEnd cs windowStart rangeEnd (target * 4) then []
        else slideWindow cs rangeEnd target overlap
          (nextStart overlap windowStart (windowEnd cs windowStart rangeEnd (target * 4))) := by
  rw [slideWindow, if_pos h]
  dsimp only
  split
  · rfl
  · rfl

/-- Sliding over a range covers it, with windows below the target. -/
theorem slideWindow_covers (cs : List Char) (htarget : 0 < target) (overlap : ℕ) {reached : ℕ}
    (h : windowStart < rangeEnd) (hreached : windowStart ≤ reached) :
    Covers reached (slideWindow cs rangeEnd target overlap windowStart) rangeEnd ∧
      ∀ w ∈ slideWindow cs rangeEnd target overlap windowStart, w.2 ≤ rangeEnd ∧
      w.2 - w.1 ≤ target * 4 - 1 := by
  induction hn : rangeEnd - windowStart using Nat.strong_induction_on generalizing windowStart
    reached with
  | _ n ih =>
    obtain ⟨hlt, hle, hsize⟩ := windowEnd_bounds cs htarget h
    rw [slideWindow_eq overlap h]
    generalize windowEnd cs windowStart rangeEnd (target * 4) = stop at hlt hle hsize ⊢
    split
    · next hlast =>
      refine ⟨⟨hreached, hlt, Nat.le_antisymm hle hlast⟩, fun w hw => ?_⟩
      obtain rfl := List.mem_singleton.1 hw
      exact ⟨hle, by omega⟩
    · next hlast =>
      have hnext : nextStart overlap windowStart stop ≤ stop := nextStart_le overlap hlt
      have hprogress : windowStart < nextStart overlap windowStart stop :=
        lt_of_lt_of_le (Nat.lt_succ_self _) (le_max_right _ _)
      obtain ⟨hcover, hrest⟩ :=
        ih (rangeEnd - nextStart overlap windowStart stop) (by omega) (by omega) hnext rfl
      refine ⟨⟨hreached, hlt, hcover⟩, fun w hw => ?_⟩
      rcases List.mem_cons.1 hw with rfl | hw
      · exact ⟨hle, by omega⟩
      · exact hrest w hw

end Window

/-! ### The loop over the paragraphs -/

/-- The paragraphs up to `pos` are cut up to `reached`, the rest of them is the open window. -/
structure Chunker.Ready (st : Chunker) (reached pos : ℕ) : Prop where
  covered : Covers 0 st.windows reached
  within : ∀ w ∈ st.windows, w.2 ≤ pos
  start : st.cursorStart ≤ reached
  window : st.cursorEnd = st.cursorStart ∧ reached = pos ∨ reached < pos ∧ st.cursorEnd = pos

section Loop

variable {target overlap reached pos : ℕ} {st : Chunker}

theorem Chunker.Ready.reached_le (h : st.Ready reached pos) : reached ≤ pos := by
  rcases h.window with ⟨-, h⟩ | ⟨h, -⟩
  · exact h.le
  · exact h.le

/-- There is an open window exactly where not all is cut. -/
theorem Chunker.Ready.open_iff (h : st.Ready reached pos) : st.cursorStart < st.cursorEnd ↔
    reached < pos := by
  have hstart := h.start
  rcases h.window with ⟨hend, hpos⟩ | ⟨hlt, hend⟩
  · omega
  · omega

theorem Chunker.Ready.cursorEnd (h : st.Ready reached pos) (hopen : reached < pos) :
    st.cursorEnd = pos := by
  rcases h.window with ⟨-, hpos⟩ | ⟨-, hend⟩
  · omega
  · exact hend

theorem covers_flush (hcov : Covers 0 st.windows reached) (hstart : st.cursorStart ≤ reached)
    (hlt : st.cursorStart < st.cursorEnd) : Covers 0 st.flush.windows st.cursorEnd :=
  covers_append.2 ⟨reached, hcov, hstart, hlt, rfl⟩

theorem within_flush {stop : ℕ} (hwithin : ∀ w ∈ st.windows, w.2 ≤ stop)
    (hend : st.cursorEnd ≤ stop) : ∀ w ∈ st.flush.windows, w.2 ≤ stop := by
  intro w hw
  rcases List.mem_append.1 hw with hw | hw
  · exact hwithin w hw
  · obtain rfl := List.mem_singleton.1 hw
    exact hend

/-- What a paragraph that is appended does: it stays in the open window, or closes it. -/
theorem append_ready (target overlap : ℕ) (st : Chunker) {stop : ℕ}
    (hcov : Covers 0 st.windows reached)
    (hwithin : ∀ w ∈ st.windows, w.2 ≤ stop) (hstart : st.cursorStart ≤ reached)
    (hlt : reached < stop) : ∃ reached' more, (st.append target overlap stop).Ready reached' stop ∧
      (st.append target overlap stop).windows = st.windows ++ more ∧ Rises reached more := by
  unfold Chunker.append
  dsimp only
  split
  · refine ⟨stop, [(st.cursorStart, stop)], ⟨?_, ?_, windowOverlapStart_le _ _, .inl ⟨rfl, rfl⟩⟩,
      rfl, hlt, trivial⟩
    · exact covers_append.2 ⟨reached, hcov, hstart, hstart.trans_lt hlt, rfl⟩
    · intro w hw
      rcases List.mem_append.1 hw with hw | hw
      · exact hwithin w hw
      · obtain rfl := List.mem_singleton.1 hw
        exact le_rfl
  · exact ⟨reached, [], ⟨hcov, hwithin, hstart, .inr ⟨hlt, rfl⟩⟩, (List.append_nil _).symm, trivial⟩

/-- The paragraph is cut by itself. -/
def Oversized (target : ℕ) (p : ℕ × ℕ) : Prop :=
  saturatingU32 (target * 3) / 2 ≤ approxTokenCount (p.2 - p.1)

instance (target : ℕ) (p : ℕ × ℕ) : Decidable (Oversized target p) :=
  inferInstanceAs (Decidable (saturatingU32 (target * 3) / 2 ≤ approxTokenCount (p.2 - p.1)))

/-- One paragraph: what it adds rises as far as its own windows do. -/
theorem step_ready (cs : List Char) (htarget : 0 < target) (overlap : ℕ) {p : ℕ × ℕ}
    (h : st.Ready reached pos) (hp : p.1 = pos) (hlt : pos < p.2) :
    ∃ reached' more, (st.step cs target overlap p).Ready reached' p.2 ∧
      (st.step cs target overlap p).windows = st.windows ++ more ∧
      (Rises reached more ↔
        (Oversized target p → Rises p.1 (slideWindow cs p.2 target overlap p.1))) := by
  unfold Chunker.step
  dsimp only
  have hwithin : ∀ w ∈ st.windows, w.2 ≤ p.2 := fun w hw => (h.within w hw).trans hlt.le
  split
  · next hover =>
    have hslide (r : ℕ) (hr : p.1 ≤ r) := slideWindow_covers cs htarget overlap (hp ▸ hlt) hr
    obtain ⟨more, hmore, hcov, hend, hrises⟩ : ∃ more,
        (if st.cursorStart < st.cursorEnd then st.flush else st).windows = st.windows ++ more ∧
          Covers 0 (st.windows ++ more) pos ∧ (∀ w ∈ more, w.2 = pos) ∧
          ∀ l, Rises reached (more ++ l) ↔ Rises pos l := by
      by_cases hopen : reached < pos
      · have hend := h.cursorEnd hopen
        have hcursor := h.open_iff.2 hopen
        refine ⟨[(st.cursorStart,
          st.cursorEnd)], by rw [if_pos hcursor]; rfl, ?_, fun w hw => ?_, fun l => ?_⟩
        · exact covers_append.2 ⟨reached, h.covered, h.start, hcursor, hend⟩
        · obtain rfl := List.mem_singleton.1 hw
          exact hend
        · rw [hend, List.singleton_append, Rises]
          exact and_iff_right hopen
      · have hreached : reached = pos := Nat.le_antisymm h.reached_le (not_lt.1 hopen)
        refine ⟨[], by rw [if_neg (mt h.open_iff.1 hopen), List.append_nil], ?_, by simp, fun l => by rw [hreached]; rfl⟩
        rw [List.append_nil, ← hreached]
        exact h.covered
    refine ⟨p.2, more ++ slideWindow cs p.2 target overlap p.1,
      ⟨?_, ?_, windowOverlapStart_le _ _, .inl ⟨rfl, rfl⟩⟩, ?_, ?_⟩
    · rw [hmore]
      exact covers_append.2 ⟨pos, hcov, (hslide pos hp.le).1⟩
    · rw [hmore]
      intro w hw
      rcases List.mem_append.1 hw with hw | hw
      · rcases List.mem_append.1 hw with hw | hw
        · exact hwithin w hw
        · exact (hend w hw).trans_le hlt.le
      · exact ((hslide pos hp.le).2 w hw).1
    · rw [hmore, List.append_assoc]
    · rw [hrises, ← hp]
      exact ⟨fun hr _ => hr, fun hr => hr hover⟩
  · next hover =>
    have hfree : (Oversized target p → Rises p.1 (slideWindow cs p.2 target overlap p.1)) :=
      fun ho => absurd ho hover
    split
    · next hfull =>
      have hopen := h.open_iff.1 hfull.1
      have hend := h.cursorEnd hopen
      have hcov : Covers 0 st.flush.windows pos := hend ▸ covers_flush h.covered h.start hfull.1
      obtain ⟨reached', more, hready, hmore, hrises⟩ := append_ready target overlap
        { st.flush with cursorStart := windowOverlapStart st.cursorEnd overlap } hcov
        (within_flush hwithin (hend ▸ hlt.le)) ((windowOverlapStart_le _ _).trans hend.le) hlt
      refine ⟨reached', (st.cursorStart, st.cursorEnd) :: more, hready, ?_, iff_of_true ?_ hfree⟩
      · rw [hmore]
        exact List.append_assoc _ _ _
      · exact ⟨hend ▸ hopen, hend ▸ hrises⟩
    · obtain ⟨reached', more, hready, hmore, hrises⟩ :=
        append_ready target overlap st h.covered hwithin h.start (h.reached_le.trans_lt hlt)
      exact ⟨reached', more, hready, hmore, iff_of_true hrises hfree⟩

theorem foldl_step_ready (cs : List Char) (htarget : 0 < target) (overlap : ℕ) {ps : List (ℕ × ℕ)}
    {stop : ℕ} (h : st.Ready reached pos) (hps : Tiles pos ps stop) :
    ∃ reached' more, (ps.foldl (Chunker.step cs target overlap) st).Ready reached' stop ∧
      (ps.foldl (Chunker.step cs target overlap) st).windows = st.windows ++ more ∧
      (Rises reached more ↔ ∀ p ∈ ps, Oversized target p →
        Rises p.1 (slideWindow cs p.2 target overlap p.1)) := by
  induction ps generalizing st reached pos with
  | nil =>
    obtain rfl : pos = stop := hps
    exact ⟨reached, [], h, (List.append_nil _).symm, iff_of_true trivial (by simp)⟩
  | cons p ps ih =>
    obtain ⟨hp, hlt, hps⟩ := hps
    obtain ⟨r₁, more₁, hready₁, hmore₁, hrises₁⟩ := step_ready cs htarget overlap h hp hlt
    obtain ⟨r₂, more₂, hready₂, hmore₂, hrises₂⟩ := ih hready₁ hps
    refine ⟨r₂, more₁ ++ more₂, hready₂, ?_, ?_⟩
    · rw [List.foldl_cons, hmore₂, hmore₁, List.append_assoc]
    · have hcov := hready₁.covered
      rw [hmore₁] at hcov
      obtain ⟨b, hb, hcov⟩ := covers_append.1 hcov
      rw [← h.covered.unique hb] at hcov
      rw [rises_append hcov, hrises₁, hrises₂, List.forall_mem_cons]

end Loop

/-! ### The text -/

section Text

variable (config : ChunkConfig) {cs : List Char}

/-- `target`, as `chunk_text` reads it. -/
def ChunkConfig.target (config : ChunkConfig) : ℕ := max config.targetTokens 1

/-- `overlap`, as `chunk_text` reads it. -/
def ChunkConfig.overlap (config : ChunkConfig) : ℕ := min config.overlapTokens (config.target - 1)

/-- `oversize_threshold`. -/
def ChunkConfig.threshold (config : ChunkConfig) : ℕ := saturatingU32 (config.target * 3) / 2

theorem ChunkConfig.target_pos : 0 < config.target := lt_of_lt_of_le Nat.one_pos (le_max_right _ _)

/-- The state after the paragraphs. -/
def chunked (config : ChunkConfig) (cs : List Char) : Chunker :=
  (splitParagraphs cs 0 0).foldl (Chunker.step cs config.target config.overlap) ⟨[], 0, 0, 0⟩

theorem chunkWindows_of_le (hne : cs ≠ []) (h : approxTokenCount cs.length ≤ config.threshold) :
    chunkWindows config cs = [(0, cs.length)] := by
  unfold chunkWindows
  rw [if_neg (by simpa using hne)]
  exact if_pos h

theorem chunkWindows_of_lt (h : config.threshold < approxTokenCount cs.length) :
    chunkWindows config cs =
      if (chunked config cs).cursorStart < (chunked config cs).cursorEnd then
        (chunked config cs).flush.windows
      else (chunked config cs).windows := by
  have hne : cs.isEmpty = false := by
    cases cs with
    | nil => exact absurd h (Nat.not_lt_zero _)
    | cons => rfl
  unfold chunkWindows
  rw [if_neg (by simp [hne])]
  exact if_neg (not_le.2 h)

/-- The windows cover the text, and they rise as far as those of its oversized paragraphs do. -/
theorem chunkWindows_spec (hne : cs ≠ []) :
    Covers 0 (chunkWindows config cs) cs.length ∧ (∀ w ∈ chunkWindows config cs, w.2 ≤ cs.length) ∧
      (Rises 0 (chunkWindows config cs) ↔ (config.threshold < approxTokenCount cs.length →
        ∀ p ∈ splitParagraphs cs 0 0, Oversized config.target p →
          Rises p.1 (slideWindow cs p.2 config.target config.overlap p.1))) := by
  have hlen : 0 < cs.length := List.length_pos_iff.2 hne
  rcases Nat.lt_or_ge config.threshold (approxTokenCount cs.length) with hlong | hshort
  · have hps := splitParagraphs_tiles cs 0 0 le_rfl
    rw [Nat.zero_add] at hps
    have hready : Chunker.Ready ⟨[], 0, 0, 0⟩ 0 0 := ⟨rfl, by simp, le_rfl, .inl ⟨rfl, rfl⟩⟩
    obtain ⟨reached, more, hready, hmore, hrises⟩ :=
      foldl_step_ready cs config.target_pos config.overlap hready hps
    rw [List.nil_append] at hmore
    rw [chunkWindows_of_lt config hlong]
    change (chunked config cs).Ready reached cs.length at hready
    change (chunked config cs).windows = more at hmore
    have hfinal : (Rises 0 more ↔ (config.threshold < approxTokenCount cs.length →
        ∀ p ∈ splitParagraphs cs 0 0, Oversized config.target p →
          Rises p.1 (slideWindow cs p.2 config.target config.overlap p.1))) := by
      rw [hrises]
      exact ⟨fun h _ => h, fun h => h hlong⟩
    by_cases hopen : reached < cs.length
    · have hend := hready.cursorEnd hopen
      rw [if_pos (hready.open_iff.2 hopen)]
      refine ⟨hend ▸ covers_flush hready.covered hready.start (hready.open_iff.2 hopen),
        within_flush hready.within hend.le, ?_⟩
      have hlast :
          Rises reached [((chunked config cs).cursorStart, (chunked config cs).cursorEnd)] :=
          ⟨hend ▸ hopen, trivial⟩
      rw [Chunker.flush, rises_append hready.covered, hmore, hfinal]
      exact and_iff_left hlast
    · rw [if_neg (mt hready.open_iff.1 hopen)]
      have hreached : reached = cs.length := Nat.le_antisymm hready.reached_le (not_lt.1 hopen)
      exact ⟨hreached ▸ hready.covered, hready.within, hmore ▸ hfinal⟩
  · rw [chunkWindows_of_le config hne hshort]
    refine ⟨⟨le_rfl, hlen, rfl⟩, fun w hw => ?_, iff_of_true ⟨hlen, trivial⟩ fun h =>
      absurd h (not_lt.2 hshort)⟩
    obtain rfl := List.mem_singleton.1 hw
    exact le_rfl

end Text

end Solo
