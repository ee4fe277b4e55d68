import Solo.LogTail.Cover

/-!
# Values behind a marker

What the functions of the sanitizer give at the offset of a character: blanks, and the range of a
value (`IsRange`). `Quiet` says of a stretch of a text that no marker begins in it with a value that
is not masked; a text is put together from such stretches.
-/

namespace Solo

namespace LogTail

open Bytes (width len splitAt? slice? charIndices len_append len_cons len_nil splitAt?_append)

/-! ### Offsets -/

theorem nextCharAt_append (a b : List Char) :
    nextCharAt (a ++ b) (len a) = some (b.head?.map fun c => (len (a ++ [c]), c)) := by
  rw [nextCharAt, splitAt?_append]
  simp only [Option.map_some, len_append, len_cons, len_nil, Nat.add_zero]

theorem skipLoop_append (a b : List Char) {fuel : ℕ} (hfuel : b.length < fuel) :
    skipLoop (a ++ b) fuel (len a) = some (len (a ++ b.takeWhile isBlank)) := by
  induction b generalizing a fuel with
  | nil =>
    obtain ⟨n, rfl⟩ := Nat.exists_eq_succ_of_ne_zero (Nat.ne_zero_of_lt hfuel)
    rw [skipLoop, nextCharAt_append]
    simp
  | cons c b ih =>
    obtain ⟨n, rfl⟩ := Nat.exists_eq_succ_of_ne_zero (Nat.ne_zero_of_lt hfuel)
    have hstep := ih (a ++ [c]) (Nat.lt_of_succ_lt_succ hfuel)
    rw [List.append_assoc, List.singleton_append] at hstep
    rw [skipLoop, nextCharAt_append, List.takeWhile_cons]
    by_cases hc : isBlank c = true
    · simpa [hc] using hstep
    · simp [hc]

theorem skipHorizontalWhitespace_append (a b : List Char) :
    skipHorizontalWhitespace (a ++ b) (len a) = some (len (a ++ b.takeWhile isBlank)) := by
  refine skipLoop_append a b ?_
  rw [List.length_append]
  omega

theorem find?_charIndices (p : Char → Bool) (cs : List Char) (i : ℕ) :
    (((charIndices cs i).find? fun x => p x.2).map (·.1)).elim (i + len cs) id = i +
    len (cs.takeWhile fun c => !p c) := by
  induction cs generalizing i with
  | nil => rfl
  | cons c cs ih =>
    rw [charIndices, List.find?_cons, List.takeWhile_cons]
    cases hc : p c with
    | true => rfl
    | false =>
      have hstep := ih (i + width c)
      rw [Nat.add_assoc, ← len_cons] at hstep
      simpa [len_cons, Nat.add_assoc] using hstep

theorem findChar_elim (p : Char → Bool) (a b : List Char) :
    (findChar p b).elim (len (a ++ b)) (len a + ·) = len (a ++ b.takeWhile fun c => !p c) := by
  have h := find?_charIndices p b 0
  rw [len_append, len_append]
  unfold findChar
  generalize (((charIndices b 0).find? fun x => p x.2).map (·.1)) = found at h ⊢
  rw [Nat.zero_add, Nat.zero_add] at h
  cases found with
  | none => exact congrArg (len a + ·) h
  | some i => exact congrArg (len a + ·) h

theorem secretValueEnd_append (a b : List Char) :
    secretValueEnd (a ++ b) (len a) = some (len (a ++ b.takeWhile fun c => !isValueEnd c)) := by
  rw [secretValueEnd, splitAt?_append, Option.map_some, findChar_elim]

/-- A value, and what stands before it: blanks, or blanks and a quote. -/
inductive IsRange : List Char → List Char → List Char → Prop
  | plain {seg v w : List Char} (hseg : Blank seg) (hnext : ∀ c ∈ (v ++ w).head?,
    isBlank c = false ∧ isQuote c = false)
    (hv : ∀ c ∈ v, isValueEnd c = false) (hw : ∀ d ∈ w.head?, isValueEnd d = true) : IsRange seg v w
  | quoted {h v w : List Char} {q : Char} (hh : Blank h) (hq : isQuote q = true) (hv : q ∉ v) (hw :
    ∀ d ∈ w.head?, d = q) : IsRange (h ++ [q]) v w

theorem head?_dropWhile_not {p : Char → Bool} {l : List Char} : ∀ c ∈ (l.dropWhile p).head?,
    p c = false := by
  intro c hc
  have h := List.head?_dropWhile_not p l
  rw [Option.mem_def.1 hc] at h
  exact h

theorem not_of_mem_takeWhile {p : Char → Bool} {l : List Char} {c : Char}
    (hc : c ∈ l.takeWhile fun c => !p c) : p c = false := by
  have h := List.mem_takeWhile_imp hc
  simpa using h

theorem secretValueRange_append (a b : List Char) :
    ∃ seg v w, b = seg ++ (v ++ w) ∧ IsRange seg v w ∧
      secretValueRange (a ++ b) (len a) = some (len (a ++ seg), len (a ++ (seg ++ v))) := by
  obtain ⟨h, z, rfl, hh, hz, hskip⟩ : ∃ h z, b = h ++ z ∧ Blank h ∧
      (∀ c ∈ z.head?, isBlank c = false) ∧
      skipHorizontalWhitespace (a ++ b) (len a) = some (len (a ++ h)) :=
    ⟨b.takeWhile isBlank, b.dropWhile isBlank, List.takeWhile_append_dropWhile.symm,
      fun c => List.mem_takeWhile_imp, head?_dropWhile_not, skipHorizontalWhitespace_append a b⟩
  have hnext := nextCharAt_append (a ++ h) z
  have hend := secretValueEnd_append (a ++ h) z
  rw [List.append_assoc] at hnext hend
  unfold secretValueRange
  rw [hskip, Option.bind_eq_bind, Option.bind_some, hnext, Option.bind_eq_bind, Option.bind_some]
  by_cases hquote : ∃ q z', z = q :: z' ∧ isQuote q = true
  · obtain ⟨q, z', rfl, hq⟩ := hquote
    refine ⟨h ++ [q], z'.takeWhile (· ≠ q), z'.dropWhile (· ≠ q), ?_, .quoted hh hq ?_ ?_, ?_⟩
    · rw [List.takeWhile_append_dropWhile, List.append_assoc, List.singleton_append]
    · intro hmem
      simpa using List.mem_takeWhile_imp hmem
    · intro d hd
      simpa using head?_dropWhile_not d hd
    · have hsplit := splitAt?_append (a ++ h ++ [q]) z'
      have hfind := findChar_elim (· = q) (a ++ h ++ [q]) z'
      simp only [List.append_assoc, List.singleton_append] at hsplit hfind ⊢
      rw [List.head?_cons, Option.map_some, Option.elim_some, if_pos hq, hsplit, Option.map_some,
        hfind]
      simp only [decide_not]
  · refine ⟨h, z.takeWhile fun c => !isValueEnd c, z.dropWhile fun c => !isValueEnd c, ?_,
      .plain hh ?_ ?_ ?_, ?_⟩
    · rw [List.takeWhile_append_dropWhile]
    · rw [List.takeWhile_append_dropWhile]
      intro c hc
      refine ⟨hz c hc, eq_false_of_ne_true fun hq => hquote ?_⟩
      obtain ⟨z', rfl⟩ := List.head?_eq_some_iff.1 hc
      exact ⟨c, z', rfl, hq⟩
    · intro c hc
      exact not_of_mem_takeWhile hc
    · intro d hd
      simpa using head?_dropWhile_not d hd
    · cases z with
      | nil =>
        rw [hend]
        simp
      | cons c z =>
        have hc : isQuote c = false := eq_false_of_ne_true fun hq => hquote ⟨c, z, rfl, hq⟩
        rw [List.head?_cons, Option.map_some, Option.elim_some, hc, if_neg Bool.false_ne_true, hend]
        simp

theorem IsRange.isTailChar {seg v w : List Char} (h : IsRange seg v w) {c : Char} (hc : c ∈ seg) :
    isTailChar c = true := by
  cases h with
  | plain hseg => exact hseg.isTailChar hc
  | quoted hh hq =>
    rcases List.mem_append.1 hc with hc | hc
    · exact hh.isTailChar hc
    · obtain rfl := List.mem_singleton.1 hc
      rw [LogTail.isTailChar, hq, Bool.or_true]
      rfl

theorem dropWhile_blank_append {h z : List Char} (hh : Blank h)
    (hz : ∀ c ∈ z.head?, isBlank c = false) : (h ++ z).dropWhile isBlank = z := by
  rw [List.dropWhile_append_of_pos hh]
  cases z with
  | nil => rfl
  | cons c z => exact List.dropWhile_cons_of_neg (by rw [hz c rfl]; exact Bool.false_ne_true)

/-- Where there is no value, nothing is unmasked. -/
theorem IsRange.masked_of_nil {seg w : List Char} (h : IsRange seg [] w) :
    Masked ((seg ++ w).dropWhile isBlank) := by
  cases h with
  | plain hseg hnext hv hw =>
    rw [List.nil_append] at hnext
    rw [dropWhile_blank_append hseg fun c hc => (hnext c hc).1]
    cases w with
    | nil => exact masked_nil
    | cons d w => exact masked_of_isValueEnd (hnext d rfl).2 (hw d rfl) w
  | @quoted h v w q hh hq hv hw =>
    rw [List.append_assoc, dropWhile_blank_append hh (by rintro c ⟨⟩; exact isBlank_of_isQuote hq),
      List.singleton_append, masked_quote hq]
    left
    cases w with
    | nil => rfl
    | cons d w =>
      obtain rfl := hw d rfl
      exact List.takeWhile_cons_of_neg (by simp)

theorem not_quote_mem_redacted {q : Char} (hq : isQuote q = true) : q ∉ redacted :=
  not_mem_redacted_of_isTailChar (by rw [isTailChar, hq, Bool.or_true]; rfl)

/-- Where a value is covered, it is masked. -/
theorem IsRange.masked {seg v w : List Char} (h : IsRange seg v w) :
    Masked ((seg ++ (redacted ++ w)).dropWhile isBlank) := by
  cases h with
  | plain hseg =>
    rw [dropWhile_blank_append hseg (by rintro c ⟨⟩; decide)]
    exact masked_redacted w
  | @quoted h v w q hh hq hv hw =>
    rw [List.append_assoc, dropWhile_blank_append hh (by rintro c ⟨⟩; exact isBlank_of_isQuote hq),
      List.singleton_append, masked_quote hq]
    right
    have hw' : w.takeWhile (· ≠ q) = [] := by
      cases w with
      | nil => rfl
      | cons d w =>
        obtain rfl := hw d rfl
        exact List.takeWhile_cons_of_neg (by simp)
    rw [List.takeWhile_append_of_pos, hw', List.append_nil]
    intro d hd
    exact decide_eq_true fun hdq => not_quote_mem_redacted hq (hdq ▸ hd)

theorem IsRange.cover {seg v w : List Char} (h : IsRange seg v w) {c : Char}
    (hc : LogTail.isTailChar c = true)
    (hq : isQuote c = false) (u : List Char) : Cover (u ++ c :: seg) v w := by
  cases h with
  | plain hseg hnext hv hw =>
    refine ⟨?_, hw⟩
    cases seg using List.reverseRecOn with
    | nil =>
      refine ⟨c, List.getLast?_concat, not_mem_redacted_of_isTailChar hc, fun h => ?_⟩
      rw [hq] at h
      cases h
    | append_singleton seg d _ =>
      have hd : isBlank d = true := hseg d (List.mem_append_right _ (List.mem_singleton.2 rfl))
      refine ⟨d, ?_,
        not_mem_redacted_of_isTailChar
        (hseg.isTailChar (List.mem_append_right _ (List.mem_singleton.2 rfl))), fun h => ?_⟩
      · rw [← List.cons_append, ← List.append_assoc]
        exact List.getLast?_concat
      · rw [isQuote_of_isBlank hd] at h
        cases h
  | @quoted h v w q hh hq' hv hw =>
    refine ⟨⟨q, ?_, not_quote_mem_redacted hq', fun _ => ⟨hv, hw⟩⟩, fun d hd => ?_⟩
    · rw [← List.cons_append, ← List.append_assoc]
      exact List.getLast?_concat
    · rw [hw d hd]
      exact isValueEnd_of_isQuote hq'

/-! ### Stretches without an unmasked marker -/

variable {m : Marker}

/-- Whatever begins in `seg`, between `o` and `z`, is masked. -/
def Quiet (m : Marker) (o seg z : List Char) : Prop :=
  ∀ s₁ s₂ s rest, seg = s₁ ++ s₂ → s₂ ≠ [] → s₂ ++ z = s ++ rest → m.Head s → Boundary (o ++ s₁) →
    Masked rest

theorem Quiet.append {o a b z : List Char} (ha : Quiet m o a (b ++ z)) (hb : Quiet m (o ++ a) b z) :
    Quiet m o (a ++ b) z := by
  intro s₁ s₂ s rest heq hne hs hhead hpre
  rcases List.append_eq_append_iff.1 heq with ⟨a', rfl, rfl⟩ | ⟨c, rfl, rfl⟩
  · refine hb a' s₂ s rest rfl hne hs hhead ?_
    rwa [List.append_assoc]
  · by_cases hc : c = []
    · subst hc
      refine hb [] b s rest rfl hne hs hhead ?_
      rwa [List.append_nil, List.append_nil]
    · exact ha s₁ c s rest rfl hc (by rwa [List.append_assoc] at hs) hhead hpre

theorem Quiet.nil (o z : List Char) : Quiet m o [] z := by
  intro s₁ s₂ s rest heq hne
  exact absurd (List.append_eq_nil_iff.1 heq.symm).2 hne

theorem Quiet.allMasked (hm : m.Wordy) {t : List Char} (h : Quiet m [] t []) :
    AllMasked m.Head t := by
  intro pre s rest heq hpre hs
  refine h pre (s ++ rest) s rest (by rw [heq, List.append_assoc]) ?_ (List.append_nil _) hs hpre
  obtain ⟨c, hc, -⟩ := (headLike_head hm).first hs
  rintro hnil
  rw [(List.append_eq_nil_iff.1 hnil).1] at hc
  cases hc

theorem head_isKeyChar (hm : m.Wordy) {s : List Char} (hs : m.Head s) : ∃ c s', s = c :: s' ∧
    isKeyChar c = true := by
  obtain ⟨k, x, rfl, hk, -⟩ := hs
  obtain ⟨c, k, rfl⟩ := List.exists_cons_of_ne_nil (hm.ne_nil hk)
  exact ⟨c, k ++ x, rfl, hm.isKeyChar hk List.mem_cons_self⟩

theorem quiet_of_isTailChar (hm : m.Wordy) {seg : List Char} (hseg : ∀ c ∈ seg, isTailChar c = true)
    (o z : List Char) : Quiet m o seg z := by
  intro s₁ s₂ s rest heq hne hs hhead hpre
  obtain ⟨c, s, rfl, hc⟩ := head_isKeyChar hm hhead
  obtain ⟨d, s₂, rfl⟩ := List.exists_cons_of_ne_nil hne
  obtain ⟨rfl, -⟩ := List.cons.inj hs
  rw [not_isKeyChar_of_isTailChar (hseg d (heq ▸ List.mem_append_right _ List.mem_cons_self))] at hc
  cases hc

theorem not_boundary {o s : List Char} {c : Char} (hc : isKeyChar c = true)
    (hs : s.getLast? = some c) : ¬ Boundary (o ++ s) := by
  intro h
  have hno := h c (by rw [List.getLast?_append, hs]; rfl)
  rw [hc] at hno
  cases hno

/-- What stands between a marker and its value is read off the text. -/
theorem head_split {k y s rest : List Char} (hk : Text.toAsciiLowercase k = m.word)
    (h : k ++ y = s ++ rest) (hs : m.Head s) : ∃ x, m.Tail x ∧ y = x ++ rest := by
  obtain ⟨k', x, rfl, hk', hx⟩ := hs
  have hlen : k.length = k'.length := by
    have := congrArg List.length (hk.trans hk'.symm)
    simpa only [Text.toAsciiLowercase, List.length_map] using this
  rw [List.append_assoc] at h
  exact ⟨x, hx, (List.append_inj h hlen).2⟩

/-- Within a marker no other begins. -/
theorem quiet_word (hm : m.Wordy) {k : List Char} (hk : Text.toAsciiLowercase k = m.word)
    {o z : List Char}
    (h : Boundary o → ∀ x rest, m.Tail x → z = x ++ rest → Masked rest) : Quiet m o k z := by
  intro s₁ s₂ s rest heq hne hs hhead hpre
  cases s₁ using List.reverseRecOn with
  | nil =>
    obtain rfl : k = s₂ := heq
    obtain ⟨x, hx, hz⟩ := head_split hk hs hhead
    rw [List.append_nil] at hpre
    exact h hpre x rest hx hz
  | append_singleton s₁ d _ =>
    have hd : isKeyChar d = true :=
      hm.isKeyChar hk
        (heq ▸ List.mem_append_left _ (List.mem_append_right _ (List.mem_singleton.2 rfl)))
    rw [← List.append_assoc] at hpre
    exact absurd hpre (not_boundary hd (List.getLast?_singleton))

/-- After a word that no boundary stands before, or that another character than a separator
follows. -/
theorem quiet_after_word (hm : m.Wordy) {k : List Char} (hk : Text.toAsciiLowercase k = m.word)
    (o : List Char) (c : Char) (z : List Char) : Quiet m (o ++ k) [c] z := by
  intro s₁ s₂ s rest heq hne hs hhead hpre
  obtain rfl : s₁ = [] := by
    cases s₁ with
    | nil => rfl
    | cons d s₁ =>
      obtain ⟨-, htail⟩ := List.cons.inj heq
      exact absurd (List.append_eq_nil_iff.1 htail.symm).2 hne
  rw [List.append_nil] at hpre
  obtain ⟨d, hd⟩ := Option.isSome_iff_exists.1 (List.getLast?_isSome.2 (hm.ne_nil hk))
  exact absurd hpre (not_boundary (hm.isKeyChar hk (List.mem_of_getLast? hd)) hd)

theorem quiet_redacted (hm : m.Wordy) (o w : List Char) : Quiet m o redacted w := by
  intro s₁ s₂ s rest heq hne hs hhead hpre
  have hL := headLike_head hm
  obtain ⟨e, he, hred⟩ := hL.last hhead
  rcases List.append_eq_append_iff.1 hs with ⟨a, rfl, -⟩ | ⟨a, rfl, -⟩
  · refine absurd (List.mem_append_left _ ?_) (hL.bracket hhead)
    have hlast := congrArg List.getLast? heq
    rw [List.getLast?_append_of_ne_nil _ hne] at hlast
    exact List.mem_of_getLast? hlast.symm
  · refine absurd ?_ hred
    rw [heq]
    exact List.mem_append_right _ (List.mem_append_left _ (List.mem_of_getLast? he))

theorem Quiet.cover (hm : m.Wordy) {o x v w : List Char} (hc : Cover (o ++ x) v w)
    (h : Quiet m [] o (x ++ (v ++ w))) : Quiet m [] o (x ++ (redacted ++ w)) := by
  intro s₁ s₂ s rest heq hne hs hhead hpre
  have hfull : o ++ x ++ (redacted ++ w) = s₁ ++ s ++ rest := by
    rw [heq, List.append_assoc, List.append_assoc, hs, List.append_assoc]
  rcases hc.head_cases (headLike_head hm) hhead hfull with ⟨r, hu, rfl⟩ | ⟨p, hp, rfl, -⟩
  · refine hc.masked hu (h s₁ s₂ s (r ++ (v ++ w)) heq hne ?_ hhead hpre)
    rw [heq, List.append_assoc, List.append_assoc] at hu
    rw [← List.append_assoc, List.append_cancel_left hu, List.append_assoc]
  · have hlen := congrArg List.length heq
    simp only [List.length_append] at hlen
    have := List.length_pos_iff.2 hp
    omega

end LogTail

end Solo
