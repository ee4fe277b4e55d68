import Solo.Ingest.Progress

/-!
# How large the chunks are, and how many (`chunk_text`)

A window that is open has fewer tokens than the target, and a closed one leaves at most the overlap
to the next. So a chunk has at most half a target more than the target, the overlap, and what
rounding loses. One chunk alone is a short text; or its last paragraph is one that only the rounding
lets in (`RoundsIn`).
-/

namespace Solo

open Letters Ranges

/-- How far `window_overlap_start` steps back at most. -/
def overlapChars (overlap : ℕ) : ℕ := if overlap = 0 then 0 else overlap * 4 + 1

theorem le_windowOverlapStart (stop overlap : ℕ) : stop ≤ windowOverlapStart stop overlap +
    overlapChars overlap := by
  unfold windowOverlapStart overlapChars
  split <;> split <;> omega

/-- `T + max(overlap, 1)`. -/
def maxTokens (target overlap : ℕ) : ℕ := target * 3 / 2 + max overlap 1

theorem approxTokenCount_add_le (a b : ℕ) : approxTokenCount (a + b) ≤ approxTokenCount a +
    approxTokenCount b + 1 := by
  unfold approxTokenCount saturatingU32
  omega

section Loop

variable {target overlap pos reached : ℕ} {st : Chunker}

/-- What the loop keeps of sizes: those of the chunks, and of the window that is open or comes
next. -/
structure Chunker.Sized (target overlap : ℕ) (st : Chunker) (pos : ℕ) : Prop where
  sizes : ∀ w ∈ st.windows, approxTokenCount (w.2 - w.1) ≤ maxTokens target overlap
  closed : ¬ st.cursorStart < st.cursorEnd → pos ≤ st.cursorStart + overlapChars overlap
  opened : st.cursorStart < st.cursorEnd →
    st.cursorTokens = approxTokenCount (st.cursorEnd - st.cursorStart) ∧ st.cursorTokens < target

theorem flush_sizes (h : ∀ w ∈ st.windows, approxTokenCount (w.2 - w.1) ≤ maxTokens target overlap)
    (hlast : approxTokenCount (st.cursorEnd - st.cursorStart) ≤ maxTokens target overlap) :
    ∀ w ∈ st.flush.windows, approxTokenCount (w.2 - w.1) ≤ maxTokens target overlap := by
  intro w hw
  rcases List.mem_append.1 hw with hw | hw
  · exact h w hw
  · obtain rfl := List.mem_singleton.1 hw
    exact hlast

theorem append_sized (st : Chunker) {stop : ℕ}
    (h : ∀ w ∈ st.windows, approxTokenCount (w.2 - w.1) ≤ maxTokens target overlap)
    (hlast : approxTokenCount (stop - st.cursorStart) ≤ maxTokens target overlap) :
    (st.append target overlap stop).Sized target overlap stop := by
  unfold Chunker.append
  dsimp only
  split
  · refine ⟨?_, fun _ => le_windowOverlapStart _ _, fun hopen => absurd hopen (lt_irrefl _)⟩
    intro w hw
    rcases List.mem_append.1 hw with hw | hw
    · exact h w hw
    · obtain rfl := List.mem_singleton.1 hw
      exact hlast
  · next hfew =>
      exact ⟨h, fun hclosed => by dsimp only at hclosed ⊢; omega, fun _ => ⟨rfl, not_le.1 hfew⟩⟩

/-- The sum of token counts that the loop compares fits `u32`. -/
def SumFits (target n : ℕ) : Prop := n < 2 ^ 34 ∨ target * 3 < 2 ^ 32

theorem sum_mod_eq {n a b : ℕ} (hfits : SumFits target n) (ha : approxTokenCount a < target)
    (hb : approxTokenCount b < saturatingU32 (target * 3) / 2) (hsum : a + b ≤ n) :
    (approxTokenCount a + approxTokenCount b) % 2 ^ 32 = approxTokenCount a +
    approxTokenCount b := by
  refine Nat.mod_eq_of_lt ?_
  unfold approxTokenCount saturatingU32 at *
  rcases hfits with h | h
  · omega
  · omega

/-- A paragraph that is not cut by itself, after an overlap. -/
theorem approxTokenCount_overlap {a b : ℕ} (ha : a ≤ overlapChars overlap)
    (hb : approxTokenCount b < saturatingU32 (target * 3) / 2) :
    approxTokenCount (a + b) ≤ maxTokens target overlap := by
  unfold approxTokenCount saturatingU32 maxTokens overlapChars at *
  split at ha
  · omega
  · omega

theorem step_sized (cs : List Char) (htarget : 0 < target) {n : ℕ} (hfits : SumFits target n)
    {p : ℕ × ℕ}
    (h : st.Ready reached pos) (hs : st.Sized target overlap pos) (hp : p.1 = pos) (hlt : pos < p.2)
    (hn : p.2 ≤ n) : (st.step cs target overlap p).Sized target overlap p.2 := by
  have hflush (hopen : st.cursorStart < st.cursorEnd) :
      ∀ w ∈ st.flush.windows, approxTokenCount (w.2 - w.1) ≤ maxTokens target overlap := by
    obtain ⟨htokens, hfew⟩ := hs.opened hopen
    refine flush_sizes hs.sizes ?_
    unfold maxTokens
    omega
  unfold Chunker.step
  dsimp only
  split
  · refine ⟨?_, fun _ => le_windowOverlapStart _ _, fun hopen => absurd hopen (lt_irrefl _)⟩
    intro w hw
    rcases List.mem_append.1 hw with hw | hw
    · split at hw
      · next hopen => exact hflush hopen w hw
      · exact hs.sizes w hw
    · have hsize := ((slideWindow_covers cs htarget overlap (hp ▸ hlt) le_rfl).2 w hw).2
      unfold approxTokenCount saturatingU32 maxTokens
      omega
  next hover =>
  have hsmall : approxTokenCount (p.2 - p.1) < saturatingU32 (target * 3) / 2 := not_le.1 hover
  split
  · next hfull =>
    have hend := h.cursorEnd (h.open_iff.1 hfull.1)
    refine append_sized _ (hflush hfull.1) ?_
    have hback := le_windowOverlapStart st.cursorEnd overlap
    have hover := windowOverlapStart_le st.cursorEnd overlap
    have hsplit : p.2 - windowOverlapStart st.cursorEnd overlap =
        (pos - windowOverlapStart st.cursorEnd overlap) + (p.2 - p.1) := by omega
    change approxTokenCount (p.2 - windowOverlapStart st.cursorEnd overlap) ≤ _
    rw [hsplit]
    exact approxTokenCount_overlap (by omega) hsmall
  · next hfits' =>
    refine append_sized st hs.sizes ?_
    have hreached := h.reached_le
    have hstart := h.start
    have hsplit : p.2 - st.cursorStart = (pos - st.cursorStart) + (p.2 - p.1) := by omega
    rw [hsplit]
    by_cases hopen : st.cursorStart < st.cursorEnd
    · have hend := h.cursorEnd (h.open_iff.1 hopen)
      obtain ⟨htokens, hfew⟩ := hs.opened hopen
      rw [hend] at htokens
      have hsum :
          ¬ saturatingU32 (target * 3) / 2 < (st.cursorTokens + approxTokenCount (p.2 - p.1)) % 2 ^
          32 :=
        fun hlt => hfits' ⟨hopen, hlt⟩
      rw [htokens, sum_mod_eq hfits (htokens ▸ hfew) hsmall (by omega)] at hsum
      have hadd := approxTokenCount_add_le (pos - st.cursorStart) (p.2 - p.1)
      unfold maxTokens
      unfold saturatingU32 at hsum
      omega
    · have hback := hs.closed hopen
      exact approxTokenCount_overlap (by omega) hsmall

theorem foldl_step_sized (cs : List Char) (htarget : 0 < target) {n stop : ℕ}
    (hfits : SumFits target n) {ps : List (ℕ × ℕ)}
    (h : st.Ready reached pos) (hs : st.Sized target overlap pos) (hps : Tiles pos ps stop)
    (hn : stop ≤ n) : (ps.foldl (Chunker.step cs target overlap) st).Sized target overlap stop := by
  induction ps generalizing st reached pos with
  | nil =>
    obtain rfl : pos = stop := hps
    exact hs
  | cons p ps ih =>
    obtain ⟨hp, hlt, hps⟩ := hps
    obtain ⟨_, _, hready, -⟩ := step_ready cs htarget overlap h hp hlt
    exact ih hready (step_sized cs htarget hfits h hs hp hlt (hps.le.trans hn)) hps

/-- A paragraph that only the rounding of the two counts lets into the window of those before it. -/
def RoundsIn (target : ℕ) (p : ℕ × ℕ) : Prop :=
  approxTokenCount p.1 < target ∧ approxTokenCount (p.2 - p.1) < saturatingU32 (target * 3) / 2 ∧
    approxTokenCount p.1 + approxTokenCount (p.2 - p.1) ≤ saturatingU32 (target * 3) / 2

/-- The whole of a long text is cut at once only where its last paragraph is rounded in. -/
theorem step_single (cs : List Char) (htarget : 0 < target) {p : ℕ × ℕ} (hfits : SumFits target p.2)
    (h : st.Ready reached pos) (hs : st.Sized target overlap pos) (hp : p.1 = pos) (hlt : pos < p.2)
    (hlong : target * 4 ≤ p.2) (hover : saturatingU32 (target * 3) / 2 < approxTokenCount p.2)
    (hsingle : (st.step cs target overlap p).windows = [(0, p.2)]) : RoundsIn target p := by
  have hold : (0, p.2) ∉ st.windows := fun hmem => absurd (h.within _ hmem) (not_le.2 hlt)
  have hflush (hopen : st.cursorStart < st.cursorEnd) (l : List (ℕ × ℕ)) : st.flush.windows ++
      l ≠ [(0, p.2)] := by
    intro heq
    have hmem : (st.cursorStart, st.cursorEnd) ∈ st.flush.windows ++ l :=
      List.mem_append_left _ (List.mem_append_right _ (List.mem_singleton.2 rfl))
    rw [heq, List.mem_singleton, Prod.mk.injEq] at hmem
    have hend := h.cursorEnd (h.open_iff.1 hopen)
    omega
  unfold Chunker.step at hsingle
  dsimp only at hsingle
  split at hsingle
  · next hover' =>
    have hcover := slideWindow_covers cs htarget overlap (hp ▸ hlt) le_rfl
    split at hsingle
    · next hopen => exact absurd hsingle (hflush hopen _)
    · change st.windows ++ slideWindow cs p.2 target overlap p.1 = _ at hsingle
      have hmem : (0, p.2) ∈ st.windows ++ slideWindow cs p.2 target overlap p.1 :=
        hsingle ▸ List.mem_singleton.2 rfl
      rcases List.mem_append.1 hmem with hmem | hmem
      · exact absurd hmem hold
      · have hsize := (hcover.2 _ hmem).2
        dsimp only at hsize
        omega
  next hover' =>
  have hsmall : approxTokenCount (p.2 - p.1) < saturatingU32 (target * 3) / 2 := not_le.1 hover'
  have happend (st' : Chunker) : ∃ l, (st'.append target overlap p.2).windows = st'.windows ++ l ∧
      ∀ w ∈ l, w = (st'.cursorStart, p.2) := by
    unfold Chunker.append
    dsimp only
    split
    · exact ⟨[(st'.cursorStart, p.2)], rfl, fun w hw => List.mem_singleton.1 hw⟩
    · exact ⟨[], (List.append_nil _).symm, by simp⟩
  split at hsingle
  · next hfull =>
    obtain ⟨l, hl, -⟩ :=
      happend { st.flush with cursorStart := windowOverlapStart st.cursorEnd overlap }
    exact absurd (hl.symm.trans hsingle) (hflush hfull.1 l)
  next hfits' =>
  obtain ⟨l, hl, hmem⟩ := happend st
  rw [hl] at hsingle
  have hnil : st.windows = [] := by
    rcases hw : st.windows with - | ⟨w, ws⟩
    · rfl
    · rw [hw, List.cons_append, List.cons.injEq] at hsingle
      exact absurd (hw ▸ hsingle.1 ▸ List.mem_cons_self) hold
  rw [hnil, List.nil_append] at hsingle
  obtain ⟨hzero, -⟩ := Prod.mk.inj (hmem (0, p.2) (hsingle ▸ List.mem_singleton.2 rfl))
  have hcovered := h.covered
  rw [hnil] at hcovered
  obtain rfl : 0 = reached := hcovered
  by_cases hopen : st.cursorStart < st.cursorEnd
  · have hend := h.cursorEnd (h.open_iff.1 hopen)
    obtain ⟨htokens, hfew⟩ := hs.opened hopen
    rw [hend, ← hzero, ← hp, Nat.sub_zero] at htokens
    have hsum :
        ¬ saturatingU32 (target * 3) / 2 < (st.cursorTokens + approxTokenCount (p.2 - p.1)) % 2 ^
        32 :=
      fun hlt => hfits' ⟨hopen, hlt⟩
    rw [htokens, sum_mod_eq hfits (htokens ▸ hfew) hsmall (by omega)] at hsum
    exact ⟨htokens ▸ hfew, hsmall, not_lt.1 hsum⟩
  · have hpos : ¬ 0 < pos := mt h.open_iff.2 hopen
    obtain rfl : pos = 0 := by omega
    rw [hp, Nat.sub_zero] at hsmall
    omega

end Loop

section Text

variable {config : ChunkConfig} {text : List Char}

theorem ChunkConfig.target_lt' (config : ChunkConfig) : config.target < 2 ^ 32 :=
  max_lt config.target_lt (by decide)

theorem chunked_sized (hfits : SumFits config.target text.length) :
    (chunked config text).Sized config.target config.overlap text.length := by
  have hps := splitParagraphs_tiles text 0 0 le_rfl
  rw [Nat.zero_add] at hps
  have hready : Chunker.Ready ⟨[], 0, 0, 0⟩ 0 0 := ⟨rfl, by simp, le_rfl, .inl ⟨rfl, rfl⟩⟩
  have hsized : Chunker.Sized config.target config.overlap ⟨[], 0, 0, 0⟩ 0 :=
    ⟨by simp, fun _ => Nat.zero_le _, fun hopen => absurd hopen (lt_irrefl _)⟩
  exact foldl_step_sized text config.target_pos hfits hready hsized hps le_rfl

theorem chunkWindows_sizes (hfits : SumFits config.target text.length) {w : ℕ × ℕ}
    (hw : w ∈ chunkWindows config text) :
    approxTokenCount (w.2 - w.1) ≤ maxTokens config.target config.overlap := by
  rcases Nat.lt_or_ge config.threshold (approxTokenCount text.length) with hlong | hshort
  · have hsized := chunked_sized hfits
    rw [chunkWindows_of_lt config hlong] at hw
    split at hw
    · next hopen =>
      obtain ⟨htokens, hfew⟩ := hsized.opened hopen
      refine flush_sizes hsized.sizes ?_ w hw
      unfold maxTokens
      omega
    · exact hsized.sizes w hw
  · rcases eq_or_ne text [] with rfl | hne
    · rw [chunkWindows] at hw
      cases hw
    · rw [chunkWindows_of_le config hne hshort, List.mem_singleton] at hw
      subst hw
      unfold ChunkConfig.threshold saturatingU32 at hshort
      change approxTokenCount text.length ≤ _
      unfold maxTokens
      omega

/-- The last paragraph of the text is rounded in. -/
def LastRoundsIn (config : ChunkConfig) (text : List Char) : Prop :=
  ∃ p ∈ (splitParagraphs text 0 0).getLast?, RoundsIn config.target p

/-- A long text is cut more than once. -/
theorem two_le_chunkWindows (hfits : SumFits config.target text.length)
    (hover : config.threshold < approxTokenCount text.length)
    (hlong : config.target * 4 ≤ text.length) (hrounds : ¬ LastRoundsIn config text) :
    2 ≤ (chunkWindows config text).length := by
  have hne : text ≠ [] := by
    rintro rfl
    exact absurd hover (Nat.not_lt_zero _)
  have hlen : 0 < text.length := List.length_pos_iff.2 hne
  obtain ⟨hcov, -, -⟩ := chunkWindows_spec config hne
  by_contra hfew
  have hwhole : chunkWindows config text = [(0, text.length)] := by
    rcases hw : chunkWindows config text with - | ⟨w, - | ⟨v, ws⟩⟩
    · rw [hw] at hcov
      exact absurd hcov hlen.ne
    · rw [hw] at hcov
      obtain ⟨hstart, -, hend⟩ := hcov
      rw [List.cons.injEq, Prod.ext_iff]
      exact ⟨⟨Nat.le_zero.1 hstart, hend⟩, rfl⟩
    · rw [hw, List.length_cons, List.length_cons] at hfew
      omega
  have hps := splitParagraphs_tiles text 0 0 le_rfl
  rw [Nat.zero_add] at hps
  obtain hnil | ⟨init, p, hinit⟩ := List.eq_nil_or_concat (splitParagraphs text 0 0)
  · rw [hnil] at hps
    exact absurd hps hlen.ne
  rw [List.concat_eq_append] at hinit
  rw [hinit] at hps
  obtain ⟨pos, hbefore, hp, hlt, hend⟩ := tiles_append.1 hps
  replace hend : p.2 = text.length := hend
  have hready : Chunker.Ready ⟨[], 0, 0, 0⟩ 0 0 := ⟨rfl, by simp, le_rfl, .inl ⟨rfl, rfl⟩⟩
  have hsized : Chunker.Sized config.target config.overlap ⟨[], 0, 0, 0⟩ 0 :=
    ⟨by simp, fun _ => Nat.zero_le _, fun hopen => absurd hopen (lt_irrefl _)⟩
  obtain ⟨reached, _, hready', -⟩ :=
    foldl_step_ready text config.target_pos config.overlap hready hbefore
  have hsized' := foldl_step_sized text config.target_pos hfits hready hsized hbefore (by omega)
  have hlast : chunked config text =
      (init.foldl (Chunker.step text config.target config.overlap) ⟨[], 0, 0, 0⟩).step text
      config.target config.overlap p := by
    rw [chunked, hinit, List.foldl_concat]
  rw [chunkWindows_of_lt config hover] at hwhole
  split at hwhole
  · next hopen =>
    obtain ⟨htokens, hfewTokens⟩ := (chunked_sized hfits).opened hopen
    have hmem : ((chunked config text).cursorStart, (chunked config text).cursorEnd) ∈
        (chunked config text).flush.windows :=
      List.mem_append_right _ (List.mem_singleton.2 rfl)
    rw [hwhole, List.mem_singleton, Prod.mk.injEq] at hmem
    rw [hmem.1, hmem.2, Nat.sub_zero] at htokens
    have htarget := config.target_lt'
    unfold approxTokenCount saturatingU32 at htokens
    omega
  · rw [hlast, ← hend] at hwhole
    rw [← hend] at hfits hover hlong
    exact hrounds ⟨p, by rw [hinit, List.getLast?_concat]; rfl,
      step_single text config.target_pos hfits hready' hsized' hp hlt hlong hover hwhole⟩

/-- The text up to `pos`, in the open window. -/
def Chunker.whole (pos : ℕ) : Chunker := ⟨[], 0, pos, approxTokenCount pos⟩

theorem step_whole (cs : List Char) {target overlap pos : ℕ} {p : ℕ × ℕ}
    (hsmall : approxTokenCount (p.2 - p.1) < saturatingU32 (target * 3) / 2)
    (hsum : approxTokenCount pos + approxTokenCount (p.2 - p.1) ≤ saturatingU32 (target * 3) / 2) :
    (Chunker.whole pos).step cs target overlap p = (Chunker.whole pos).append target overlap
    p.2 := by
  have hmod : (approxTokenCount pos + approxTokenCount (p.2 - p.1)) % 2 ^ 32 =
      approxTokenCount pos + approxTokenCount (p.2 - p.1) := by
    refine Nat.mod_eq_of_lt (hsum.trans_lt ?_)
    unfold saturatingU32
    omega
  unfold Chunker.step
  dsimp only
  rw [if_neg (not_le.2 hsmall), if_neg fun hfull => ?_]
  have hover :
      saturatingU32 (target * 3) / 2 < (approxTokenCount pos + approxTokenCount (p.2 - p.1)) % 2 ^
      32 := hfull.2
  rw [hmod] at hover
  exact absurd hsum (not_le.2 hover)

/-- Paragraphs of less than the target stay in one window. -/
theorem foldl_step_whole (cs : List Char) {target overlap pos stop : ℕ} {ps : List (ℕ × ℕ)}
    (hfits : target * 3 < 2 ^ 32) (hps : Tiles pos ps stop)
    (hfew : approxTokenCount stop < target) :
    ps.foldl (Chunker.step cs target overlap) (.whole pos) = .whole stop := by
  induction ps generalizing pos with
  | nil =>
    obtain rfl : pos = stop := hps
    rfl
  | cons p ps ih =>
    obtain ⟨hp, hlt, hrest⟩ := hps
    have hle : p.2 ≤ stop := hrest.le
    have hpart : approxTokenCount pos + approxTokenCount (p.2 - p.1) ≤ approxTokenCount p.2 ∧
        approxTokenCount p.2 < target ∧ approxTokenCount (p.2 - p.1) < target ∧
        target ≤ saturatingU32 (target * 3) / 2 := by
      unfold approxTokenCount saturatingU32 at hfew ⊢
      omega
    obtain ⟨hsum, hfew', hsmall, htarget⟩ := hpart
    have happend : (Chunker.whole pos).append target overlap p.2 = .whole p.2 :=
      if_neg (not_le.2 hfew')
    rw [List.foldl_cons, step_whole cs (hsmall.trans_le htarget)
      (hsum.trans (hfew'.le.trans htarget)), happend]
    exact ih hrest

/-- A text whose last paragraph is rounded in is one chunk, although it is long. -/
theorem length_chunkWindows_of_lastRoundsIn (hfits : config.target * 3 < 2 ^ 32)
    (h : LastRoundsIn config text) : (chunkWindows config text).length = 1 := by
  obtain ⟨p, hp, hfew, hsmall, hsum⟩ := h
  obtain ⟨init, hinit⟩ := List.getLast?_eq_some_iff.1 hp
  have hps := splitParagraphs_tiles text 0 0 le_rfl
  rw [hinit] at hps
  obtain ⟨pos, hbefore, hfirst, hlt, -⟩ := tiles_append.1 hps
  rw [← hfirst] at hbefore hlt
  have hne : text ≠ [] := by
    rintro rfl
    rw [splitParagraphs] at hinit
    exact absurd hinit.symm (by simp)
  rcases Nat.lt_or_ge config.threshold (approxTokenCount text.length) with hlong | hshort
  · have hinitial : (⟨[], 0, 0, 0⟩ : Chunker) = .whole 0 := rfl
    have hlast : chunked config text = (Chunker.whole p.1).append config.target config.overlap
        p.2 := by
      rw [chunked, hinit, List.foldl_concat, hinitial, foldl_step_whole text hfits hbefore hfew,
        step_whole text hsmall hsum]
    rw [chunkWindows_of_lt config hlong, hlast]
    by_cases hfull : config.target ≤ approxTokenCount p.2
    · have hclosed : (Chunker.whole p.1).append config.target config.overlap p.2 =
          ⟨[(0, p.2)], windowOverlapStart p.2 config.overlap, windowOverlapStart p.2 config.overlap,
            approxTokenCount p.2⟩ := if_pos hfull
      rw [hclosed, if_neg (lt_irrefl _)]
      rfl
    · have hopen : (Chunker.whole p.1).append config.target config.overlap p.2 = .whole p.2 :=
        if_neg hfull
      rw [hopen,
        if_pos (show (Chunker.whole p.2).cursorStart < (Chunker.whole p.2).cursorEnd
          from Nat.zero_lt_of_lt hlt)]
      rfl
  · rw [chunkWindows_of_le config hne hshort]
    rfl

theorem length_chunkWindows_of_le (hshort : approxTokenCount text.length ≤ config.threshold) :
    (chunkWindows config text).length = if text.isEmpty then 0 else 1 := by
  rcases eq_or_ne text [] with rfl | hne
  · rfl
  · rw [chunkWindows_of_le config hne hshort, if_neg (by simpa using hne)]
    rfl

/-- Chunks stay in the band, and one alone is a short text, or one whose last paragraph is rounded
in. -/
theorem chunkText_band (config : ChunkConfig) (text : List Char)
    (hfits : SumFits config.target text.length) :
    ∃ chunks, Bytes.chunkText config text = some chunks ∧
      (∀ c ∈ chunks, c.tokenCount ≤ maxTokens config.target config.overlap) ∧
      (approxTokenCount text.length ≤ config.threshold →
        chunks.length = if text.isEmpty then 0 else 1) ∧
      (config.target * 3 / 2 < approxTokenCount text.length → ¬ LastRoundsIn config text →
        2 ≤ chunks.length) := by
  refine ⟨_, Bytes.chunkText_eq config text, fun c hc => ?_, ?_, ?_⟩
  · obtain ⟨w, hw, rfl⟩ := List.mem_map.1 hc
    rcases eq_or_ne text [] with rfl | hne
    · rw [chunkWindows] at hw
      cases hw
    have hlen := Bytes.length_slice (a := w.1) ((chunkWindows_spec config hne).2.1 w hw)
    change approxTokenCount (slice text w.1 w.2).length ≤ _
    rw [hlen]
    exact chunkWindows_sizes hfits hw
  · intro hshort
    rw [List.length_map]
    exact length_chunkWindows_of_le hshort
  · intro hlong hrounds
    have hover : config.threshold < approxTokenCount text.length := by
      unfold ChunkConfig.threshold saturatingU32
      omega
    have hsize : config.target * 4 ≤ text.length := by
      unfold approxTokenCount saturatingU32 at hlong
      omega
    rw [List.length_map]
    exact two_le_chunkWindows hfits hover hsize hrounds

end Text

theorem chunkText_band_small :
    ∃ chunks, Bytes.chunkText Bytes.smallConfig "One. Two. Three. Four.".toList = some chunks ∧
      (∀ c ∈ chunks, c.tokenCount ≤ maxTokens Bytes.smallConfig.target Bytes.smallConfig.overlap) ∧
      (approxTokenCount "One. Two. Three. Four.".toList.length ≤ Bytes.smallConfig.threshold →
        chunks.length = if "One. Two. Three. Four.".toList.isEmpty then 0 else 1) ∧
      (Bytes.smallConfig.target * 3 / 2 < approxTokenCount "One. Two. Three. Four.".toList.length →
        ¬ LastRoundsIn Bytes.smallConfig "One. Two. Three. Four.".toList → 2 ≤ chunks.length) :=
  chunkText_band _ _ (.inr (by decide))

/-- The band as the documentation has it. -/
def InBand (config : ChunkConfig) (text : List Char) : Prop :=
  ∃ chunks, Bytes.chunkText config text = some chunks ∧
    (∀ c ∈ chunks, c.tokenCount ≤ maxTokens config.target config.overlap) ∧
    (approxTokenCount text.length ≤ config.target * 3 / 2 → chunks.length = 1) ∧
    (config.target * 3 / 2 < approxTokenCount text.length → 2 ≤ chunks.length)

theorem InBand.windows {config : ChunkConfig} {text : List Char} (h : InBand config text) :
    (approxTokenCount text.length ≤ config.target * 3 / 2 → (chunkWindows config text).length = 1) ∧
      (config.target * 3 / 2 < approxTokenCount text.length →
        2 ≤ (chunkWindows config text).length) := by
  obtain ⟨chunks, hchunks, -, hone, htwo⟩ := h
  rw [Bytes.chunkText_eq] at hchunks
  obtain rfl := Option.some.inj hchunks
  rw [List.length_map] at hone htwo
  exact ⟨hone, htwo⟩

/-- 2 ^ 31 tokens a window: three times that is no `u32`. -/
def hugeConfig : ChunkConfig := ⟨2 ^ 31, 0, by decide, by decide⟩

/-- A paragraph of 7 characters and one of 11: 1 and 2 tokens, but 4 together. -/
def roundedText : List Char := List.replicate 5 'a' ++ '\n' :: '\n' :: List.replicate 11 'a'

/-- The paragraph up to the first blank line. -/
theorem splitParagraphs_append {cs : List Char} (h : '\n' ∉ cs) (rest : List Char) (start i : ℕ) :
    splitParagraphs (cs ++ '\n' :: '\n' :: rest) start i =
      (start, i + cs.length + 2 + (rest.takeWhile (· = '\n')).length) ::
        splitParagraphs (rest.dropWhile (· = '\n'))
        (i + cs.length + 2 + (rest.takeWhile (· = '\n')).length)
          (i + cs.length + 2 + (rest.takeWhile (· = '\n')).length) := by
  induction cs generalizing i with
  | nil =>
    rw [List.nil_append, splitParagraphs, if_pos ⟨rfl, rfl⟩]
    rfl
  | cons c cs ih =>
    obtain ⟨hc, hcs⟩ := not_or.1 (mt List.mem_cons.2 h)
    have hskip : splitParagraphs (c :: (cs ++ '\n' :: '\n' :: rest)) start i =
        splitParagraphs (cs ++ '\n' :: '\n' :: rest) start (i + 1) := by
      rcases hrest : cs ++ '\n' :: '\n' :: rest with - | ⟨d, ds⟩
      · exact absurd hrest (by simp)
      · rw [splitParagraphs, if_neg (fun hnl => hc hnl.1.symm)]
    have hlen : i + 1 + cs.length = i + (c :: cs).length := by
      rw [List.length_cons]
      omega
    rw [List.cons_append, hskip, ih hcs, hlen]

theorem not_inBand_huge {text : List Char} (hlen : text.length = 2 ^ 33) (hline : '\n' ∉ text) :
    ¬ InBand hugeConfig text := by
  intro h
  have htarget : hugeConfig.target = 2 ^ 31 := max_eq_left Nat.one_le_two_pow
  have htokens : approxTokenCount text.length = 2 ^ 31 := by
    unfold approxTokenCount saturatingU32
    omega
  have hthreshold : saturatingU32 (2 ^ 31 * 3) / 2 < 2 ^ 31 := by
    unfold saturatingU32
    omega
  have hone := h.windows.1 (by omega)
  have hparagraph := splitParagraphs_of_line hline 0 0 (by omega)
  rw [Nat.zero_add] at hparagraph
  have hrounds : ¬ LastRoundsIn hugeConfig text := by
    rintro ⟨p, hp, -, hsmall, -⟩
    rw [hparagraph] at hp
    obtain rfl : (0, text.length) = p := Option.some.inj hp
    rw [Nat.sub_zero, htokens, htarget] at hsmall
    omega
  have hlong : hugeConfig.target * 4 ≤ text.length := by omega
  have hover : hugeConfig.threshold < approxTokenCount text.length := by
    rw [htokens, ChunkConfig.threshold, htarget]
    exact hthreshold
  have hfits : SumFits hugeConfig.target text.length := .inl (by omega)
  have htwo : 2 ≤ (chunkWindows hugeConfig text).length :=
    two_le_chunkWindows hfits hover hlong hrounds
  rw [hone] at htwo
  exact absurd htwo (by decide)

theorem not_inBand_rounded : ¬ InBand Bytes.smallConfig roundedText := by
  intro h
  have hparagraphs : splitParagraphs roundedText 0 0 = [(0, 7), (7, 18)] := by
    rw [roundedText, splitParagraphs_append (by decide)]
    exact congrArg _ (splitParagraphs_of_line (by decide) 7 7 (by decide))
  have hrounds : LastRoundsIn Bytes.smallConfig roundedText := by
    refine ⟨(7, 18), ?_, by decide, by decide, by decide⟩
    rw [hparagraphs]
    rfl
  have htwo := h.windows.2 (by decide)
  rw [length_chunkWindows_of_lastRoundsIn (by decide) hrounds] at htwo
  exact absurd htwo (by decide)

/-- An empty text has no chunk, the threshold saturates, and `roundedText` is one chunk. -/
theorem chunkText_outOfBand :
    ¬ InBand Bytes.smallConfig [] ∧ ¬ InBand hugeConfig (List.replicate (2 ^ 33) 'a') ∧
      ¬ InBand Bytes.smallConfig roundedText := by
  refine ⟨fun h => absurd (h.windows.1 (by decide)) (by decide), ?_, not_inBand_rounded⟩
  refine not_inBand_huge List.length_replicate fun hmem => ?_
  exact absurd (List.eq_of_mem_replicate hmem) (by decide)

end Solo
