import Solo.Ingest.ChunkBytes

/-!
# Where the ends of chunks rise (`chunk_text`, `slide_window`)

The next window of a paragraph starts later, and ends no earlier. It ends at the same sentence end
where the step back for the overlap leaves that the last one in reach: then the window *stalls*, and
the chunk lies in the one before. With a fixed distance between target and overlap this cannot be.
-/

namespace Solo

open Letters Ranges

/-- A text without newlines is one paragraph. -/
theorem splitParagraphs_of_line {cs : List Char} (h : '\n' ∉ cs) (start i : ℕ)
    (hlt : start < i + cs.length) : splitParagraphs cs start i = [(start, i + cs.length)] := by
  induction cs, start, i using splitParagraphs.induct with
  | case1 start i hopen =>
    rw [splitParagraphs, if_pos hopen]
    rfl
  | case2 start i hle => exact absurd hlt hle
  | case3 start i c =>
    rw [splitParagraphs]
    rfl
  | case4 start i a b rest hnl _ ih => exact absurd (List.mem_cons.2 (.inl hnl.1.symm)) h
  | case5 start i a b rest hnl ih =>
    have hend : i + 1 + (b :: rest).length = i + (a :: b :: rest).length := by
      simp only [List.length_cons]
      omega
    rw [splitParagraphs, if_neg hnl, ih (fun hmem => h (List.mem_cons_of_mem a hmem)) (hend ▸ hlt),
      hend]

section Window

variable {cs : List Char} {rangeEnd target overlap windowStart : ℕ}

/-- The windows that `slide_window` cuts after the one that starts at `windowStart`, by their
starts. -/
inductive WindowAt (cs : List Char) (rangeEnd target overlap : ℕ) : ℕ → ℕ → Prop
  | first (windowStart : ℕ) : WindowAt cs rangeEnd target overlap windowStart windowStart
  | next {windowStart start : ℕ} : windowEnd cs windowStart rangeEnd (target * 4) < rangeEnd →
    WindowAt cs rangeEnd target overlap
      (nextStart overlap windowStart (windowEnd cs windowStart rangeEnd (target * 4))) start →
    WindowAt cs rangeEnd target overlap windowStart start

/-- A window that ends at `stop`, after one that ends there: `stop` is behind the last sentence end
in its reach. -/
structure StallsAt (cs : List Char) (rangeEnd target windowStart stop : ℕ) : Prop where
  inside : windowStart + target * 4 ≤ rangeEnd
  ends : EndsSentence cs (stop - 1)
  reach : windowStart + (target * 4 - 1) < stop + lookBack target
  last : ∀ j, stop ≤ j → j < windowStart + (target * 4 - 1) → ¬ EndsSentence cs j

/-- The window after the one at `windowStart` ends where that one does. -/
def Stalls (cs : List Char) (rangeEnd target overlap windowStart : ℕ) : Prop :=
  windowEnd cs windowStart rangeEnd (target * 4) < rangeEnd ∧
    StallsAt cs rangeEnd target
    (nextStart overlap windowStart (windowEnd cs windowStart rangeEnd (target * 4)))
      (windowEnd cs windowStart rangeEnd (target * 4))

/-- The next window ends later, or stalls. -/
theorem windowEnd_next (htarget : 0 < target) {stop : ℕ} (h : windowStart < rangeEnd)
    (hstop : windowEnd cs windowStart rangeEnd (target * 4) = stop) (hlast : stop < rangeEnd) :
    stop < windowEnd cs (nextStart overlap windowStart stop) rangeEnd (target * 4) ↔
      ¬ StallsAt cs rangeEnd target (nextStart overlap windowStart stop) stop := by
  have hcut := windowEnd_cases cs htarget h
  have hbounds := windowEnd_bounds cs htarget h
  rw [hstop] at hcut hbounds
  have hnext : nextStart overlap windowStart stop ≤ stop := nextStart_le overlap hbounds.1
  have hprogress : windowStart < nextStart overlap windowStart stop :=
    lt_of_lt_of_le (Nat.lt_succ_self _) (le_max_right _ _)
  generalize nextStart overlap windowStart stop = next at hnext hprogress
  have hcut' := windowEnd_cases cs htarget (hnext.trans_lt hlast)
  generalize windowEnd cs next rangeEnd (target * 4) = stop' at hcut'
  rcases hcut' with ⟨hshort, rfl⟩ | ⟨hfits, natural', rfl, hbreak⟩
  · refine iff_of_true hlast fun hstall => ?_
    have := hstall.inside
    omega
  rcases hcut with ⟨-, rfl⟩ | ⟨-, natural, rfl, hbreak₀⟩
  · exact absurd hlast (lt_irrefl _)
  rcases hbreak with ⟨hend, hreach, hle, hnone⟩ | ⟨rfl, hnone⟩
  · constructor
    · intro hlt hstall
      exact hstall.last (stop' - 1) (by omega) (by omega) hend
    · intro hstall
      by_contra hback
      rcases hbreak₀ with ⟨hend₀, -, hle₀, -⟩ | ⟨rfl, hnone₀⟩
      · -- what the window before found is still ahead of where this one stops
        by_cases hsame : stop' = stop
        · subst hsame
          exact hstall ⟨hfits, hend, by omega, hnone⟩
        · exact hnone (stop - 1) (by omega) (by omega) hend₀
      · exact hnone₀ (stop' - 1) (by omega) (by omega) hend
  · refine iff_of_true ?_ fun hstall => ?_
    · rcases hbreak₀ with ⟨-, -, hle₀, -⟩ | ⟨rfl, -⟩
      · omega
      · omega
    · have := hstall.reach
      exact hnone (stop - 1) (by omega) (by omega) hstall.ends

/-- The ends of the windows of a paragraph rise where none stalls. -/
theorem slideWindow_rises (htarget : 0 < target) (overlap : ℕ) {reached : ℕ}
    (h : windowStart < rangeEnd) :
    Rises reached (slideWindow cs rangeEnd target overlap windowStart) ↔
      reached < windowEnd cs windowStart rangeEnd (target * 4) ∧
        ∀ start, WindowAt cs rangeEnd target overlap windowStart start →
        ¬ Stalls cs rangeEnd target overlap start := by
  induction hn : rangeEnd - windowStart using Nat.strong_induction_on generalizing windowStart
    reached with
  | _ n ih =>
    obtain ⟨hlt, hle, -⟩ := windowEnd_bounds cs htarget h
    rw [slideWindow_eq overlap h, Rises]
    refine and_congr_right fun _ => ?_
    by_cases hlast : rangeEnd ≤ windowEnd cs windowStart rangeEnd (target * 4)
    · rw [if_pos hlast]
      refine iff_of_true trivial fun start hstart hstall => ?_
      cases hstart with
      | first => exact absurd hstall.1 (not_lt.2 hlast)
      | next hinside _ => exact absurd hinside (not_lt.2 hlast)
    · have hnext := nextStart_le overlap hlt
      have hprogress :
          windowStart < nextStart overlap windowStart
          (windowEnd cs windowStart rangeEnd (target * 4)) :=
        lt_of_lt_of_le (Nat.lt_succ_self _) (le_max_right _ _)
      rw [if_neg hlast, ih _ (by omega) (by omega) rfl,
        windowEnd_next htarget h rfl (not_le.1 hlast)]
      constructor
      · rintro ⟨hnow, hlater⟩ start hstart
        cases hstart with
        | first => exact fun hstall => hnow hstall.2
        | next _ hrest => exact hlater start hrest
      · intro hnone
        exact ⟨fun hstall => hnone windowStart (.first _) ⟨not_le.1 hlast, hstall⟩,
          fun start hstart => hnone start (.next (not_le.1 hlast) hstart)⟩

theorem WindowAt.lt {start : ℕ} (h : WindowAt cs rangeEnd target overlap windowStart start)
    (htarget : 0 < target) (hlt : windowStart < rangeEnd) : start < rangeEnd := by
  induction h with
  | first => exact hlt
  | next hinside _ ih =>
    exact ih ((nextStart_le overlap (windowEnd_bounds cs htarget hlt).1).trans_lt hinside)

/-- No window stalls where the overlap is that much shorter than the window. -/
theorem not_stalls (htarget : 0 < target) (h : windowStart < rangeEnd)
    (hfar : lookBack target + 2 ≤ (target - overlap) * 4) :
    ¬ Stalls cs rangeEnd target overlap windowStart := by
  rintro ⟨-, hstall⟩
  obtain ⟨hlt, -⟩ := windowEnd_bounds cs htarget h
  have hreach := hstall.reach
  unfold nextStart windowOverlapStart at hreach
  split at hreach
  · omega
  · omega

end Window

section Text

variable (config : ChunkConfig) (text : List Char)

/-- No window of a paragraph that is cut by itself stalls. -/
def NoStall : Prop :=
  config.threshold < approxTokenCount text.length →
    ∀ p ∈ splitParagraphs text 0 0, Oversized config.target p →
    ∀ start, WindowAt text p.2 config.target config.overlap p.1 start →
      ¬ Stalls text p.2 config.target config.overlap start

/-- The default of 500 tokens and 50 of overlap is one of these. -/
theorem noStall_of_far (hfar : lookBack config.target + 2 ≤ (config.target - config.overlap) * 4) :
    NoStall config text := by
  intro _ p hp _ start hstart
  have hlt := ((splitParagraphs_tiles text 0 0 le_rfl).mem hp).2.1
  exact not_stalls config.target_pos (hstart.lt config.target_pos hlt) hfar

theorem chunkWindows_rises : Rises 0 (chunkWindows config text) ↔ NoStall config text := by
  rcases eq_or_ne text [] with rfl | hne
  · exact iff_of_true trivial fun h => absurd h (Nat.not_lt_zero _)
  obtain ⟨-, -, hrises⟩ := chunkWindows_spec config hne
  have hps := splitParagraphs_tiles text 0 0 le_rfl
  rw [hrises, NoStall]
  refine forall_congr' fun _ => forall₂_congr fun p hp => forall_congr' fun _ => ?_
  have hlt := (hps.mem hp).2.1
  rw [slideWindow_rises config.target_pos config.overlap hlt]
  exact and_iff_right (windowEnd_bounds text config.target_pos hlt).1

/-- Below byte `2 ^ 32 - 1` every cut but the one at the end: an offset is one of `u32`. -/
def OffsetsFit : Prop :=
  ∀ w ∈ chunkWindows config text, w.2 < text.length → Bytes.off text w.2 < 2 ^ 32 - 1

theorem offsetsFit_of_len (h : Bytes.len text < 2 ^ 32) : OffsetsFit config text := by
  intro w _ hlt
  have hoff : Bytes.off text w.2 < Bytes.off text text.length := (Bytes.off_lt_off le_rfl).2 hlt
  rw [Bytes.off_length] at hoff
  omega

theorem byteOffset_lt {a b : ℕ} (hb : b ≤ text.length) :
    byteOffset text a < byteOffset text b ↔ a < b ∧ Bytes.off text a < 2 ^ 32 - 1 := by
  have hlt : Bytes.off text a < Bytes.off text b ↔ a < b := Bytes.off_lt_off hb
  unfold byteOffset saturatingU32
  change min (Bytes.off text a) (2 ^ 32 - 1) < min (Bytes.off text b) (2 ^ 32 - 1) ↔ _
  omega

theorem pairwise_byteOffset :
    ((chunkWindows config text).Pairwise fun v w => byteOffset text v.2 < byteOffset text w.2) ↔
      NoStall config text ∧ OffsetsFit config text := by
  rcases eq_or_ne text [] with rfl | hne
  · refine iff_of_true .nil ⟨fun h => absurd h (Nat.not_lt_zero _), ?_⟩
    rintro w - hlt
    exact absurd hlt (Nat.not_lt_zero _)
  obtain ⟨hcov, hwithin, -⟩ := chunkWindows_spec config hne
  rw [← chunkWindows_rises, rises_iff_pairwise]
  constructor
  · intro hpair
    refine ⟨⟨fun w hw => Nat.zero_lt_of_lt (hcov.lt hw), ?_⟩, fun w hw hlt => ?_⟩
    · exact hpair.imp_of_mem fun _ hw h => ((byteOffset_lt text (hwithin _ hw)).1 h).1
    · obtain hnil | ⟨l, last, hlast⟩ := List.eq_nil_or_concat (chunkWindows config text)
      · rw [hnil] at hw
        cases hw
      rw [List.concat_eq_append] at hlast
      have hend : last.2 = text.length := hcov.last_eq (by rw [hlast, List.getLast?_concat]; rfl)
      rw [hlast, List.mem_append, List.mem_singleton] at hw
      rw [hlast, List.pairwise_append] at hpair
      rcases hw with hw | rfl
      · exact ((byteOffset_lt text hend.le).1 (hpair.2.2 w hw last (List.mem_singleton.2 rfl))).2
      · omega
  · rintro ⟨⟨-, hpair⟩, hfit⟩
    refine hpair.imp_of_mem fun hv hw hlt => (byteOffset_lt text (hwithin _ hw)).2 ⟨hlt, ?_⟩
    exact hfit _ hv (hlt.trans_le (hwithin _ hw))

theorem isChain_chunks :
    (((chunkWindows config text).map (pushChunk plain text)).IsChain fun c d =>
      c.endOffset < d.endOffset) ↔ NoStall config text ∧ OffsetsFit config text := by
  have hplain : text.map plain.char = text := List.map_id text
  have htrans : IsTrans (ℕ × ℕ) fun v w => byteOffset text v.2 < byteOffset text w.2 :=
    ⟨fun _ _ _ => lt_trans⟩
  rw [← pairwise_byteOffset, List.isChain_map, ← List.isChain_iff_pairwise]
  simp only [pushChunk, hplain]

/-- The end offsets of the chunks rise exactly where no window stalls and the cuts fit. -/
theorem chunkText_rises :
    ∃ chunks, Bytes.chunkText config text = some chunks ∧
      ((chunks.IsChain fun c d => c.endOffset < d.endOffset) ↔ NoStall config text ∧
        OffsetsFit config text) :=
  ⟨_, Bytes.chunkText_eq config text, isChain_chunks config text⟩

/-- With no more overlap than that, the end offsets of every text below 4 GiB rise. -/
theorem chunks_rise_of_far
    (hfar : lookBack config.target + 2 ≤ (config.target - config.overlap) * 4)
    (hlen : Bytes.len text < 2 ^ 32) :
    ∃ chunks, Bytes.chunkText config text = some chunks ∧ chunks.IsChain fun c d =>
    c.endOffset < d.endOffset :=
  ⟨_, Bytes.chunkText_eq config text,
    (isChain_chunks config text).2
      ⟨noStall_of_far config text hfar, offsetsFit_of_len config text hlen⟩⟩

end Text

/-- Eight tokens a window, seven of them overlap. -/
def denseConfig : ChunkConfig := ⟨8, 7, by decide, by decide⟩

/-- A sentence of 31 characters, and letters after it. -/
def stallText : List Char := List.replicate 30 'a' ++ '.' :: List.replicate 29 'a'

theorem stalls_stallText : Stalls stallText 60 denseConfig.target denseConfig.overlap 0 := by
  refine ⟨by decide, by decide, by decide, by decide, fun j hj hlt => ?_⟩
  have hj : 31 ≤ j := hj
  have hlt : j < 33 := hlt
  obtain rfl | rfl : j = 31 ∨ j = 32 := by omega
  · decide
  · decide

/-- The second chunk of this text ends where the first one does. -/
theorem chunkText_stalls :
    ¬ ∃ chunks, Bytes.chunkText denseConfig stallText = some chunks ∧
      chunks.IsChain fun c d => c.endOffset < d.endOffset := by
  rintro ⟨chunks, hchunks, hchain⟩
  rw [Bytes.chunkText_eq] at hchunks
  obtain rfl := Option.some.inj hchunks
  obtain ⟨hstall, -⟩ := (isChain_chunks denseConfig stallText).1 hchain
  have hparagraph : splitParagraphs stallText 0 0 = [(0, 60)] :=
    splitParagraphs_of_line (by decide) 0 0 (by decide)
  exact hstall (by decide) (0, 60) (by rw [hparagraph]; exact List.mem_singleton.2 rfl) (by decide)
    0 (.first 0) stalls_stallText

end Solo
