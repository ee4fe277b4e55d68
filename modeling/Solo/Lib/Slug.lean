import Solo.Lib.Text

/-!
# Slugs

`slug` gives the empty list or a slug: lower-case letters and digits, with single separators between
them. It leaves a slug as it is, and so does trimming.
-/

namespace Text

/-! ### The characters of words -/

/-- The characters of a slug's words. -/
def isSlugChar (c : Char) : Bool := c.isLower || c.isDigit

theorem isLower_eq (c : Char) : c.isLower = (decide (97 ≤ c.val) && decide (c.val ≤ 122)) := rfl

theorem isUpper_eq (c : Char) : c.isUpper = decide (65 ≤ c.val ∧ c.val ≤ 90) := rfl

theorem isAlpha_eq (c : Char) : c.isAlpha = (c.isUpper || c.isLower) := rfl

theorem isSlugChar_toNat {c : Char} (h : isSlugChar c = true) :
    97 ≤ c.toNat ∧ c.toNat ≤ 122 ∨ 48 ≤ c.toNat ∧ c.toNat ≤ 57 := by
  simp only [isSlugChar, isLower_eq, Char.isDigit, Bool.or_eq_true, Bool.and_eq_true,
    decide_eq_true_eq, ge_iff_le, UInt32.le_iff_toNat_le] at h
  exact h

theorem isAlphanum_toNat {c : Char} (h : c.isAlphanum = true) : c.toNat < 128 := by
  simp only [Char.isAlphanum, isAlpha_eq, isUpper_eq, isLower_eq, Char.isDigit, Bool.or_eq_true,
    Bool.and_eq_true, decide_eq_true_eq, ge_iff_le, UInt32.le_iff_toNat_le] at h
  change ((65 ≤ c.toNat ∧ c.toNat ≤ 90) ∨ (97 ≤ c.toNat ∧ c.toNat ≤ 122)) ∨
      (48 ≤ c.toNat ∧ c.toNat ≤ 57) at h
  omega

/-- A property of the ASCII characters is checked one by one. -/
theorem forall_ascii {p : Char → Bool} (h : ∀ n < 128, p (Char.ofNat n) = true) {c : Char}
    (hc : c.toNat < 128) : p c = true := by
  have hn := h c.toNat hc
  rwa [Char.ofNat_toNat] at hn

theorem isSlugChar_toLower {c : Char} (h : c.isAlphanum = true) : isSlugChar c.toLower = true := by
  have hall :=
    forall_ascii (p := fun c => !c.isAlphanum || isSlugChar c.toLower) (by decide)
    (isAlphanum_toNat h)
  simpa [h] using hall

theorem isAlphanum_of_isSlugChar {c : Char} (h : isSlugChar c = true) : c.isAlphanum = true := by
  simp only [isSlugChar, Bool.or_eq_true] at h
  simp only [Char.isAlphanum, isAlpha_eq, Bool.or_eq_true]
  tauto

theorem toLower_of_isSlugChar {c : Char} (h : isSlugChar c = true) : c.toLower = c := by
  have hall := forall_ascii (p := fun c => !isSlugChar c || c.toLower = c) (by decide)
    (isAlphanum_toNat (isAlphanum_of_isSlugChar h))
  simpa [h] using hall

theorem toLower_of_not_isAlphanum {c : Char} (hc : c.isAlphanum = false) : c.toLower = c := by
  refine dif_neg fun hupper => ?_
  have hup : c.isUpper = true := decide_eq_true hupper
  rw [Char.isAlphanum, isAlpha_eq, hup] at hc
  cases hc

theorem isAlphanum_toLower (c : Char) : c.toLower.isAlphanum = c.isAlphanum := by
  cases hc : c.isAlphanum with
  | true => exact isAlphanum_of_isSlugChar (isSlugChar_toLower hc)
  | false => rw [toLower_of_not_isAlphanum hc, hc]

/-- What stands before the first occurrence of a delimiter. -/
theorem eq_of_append_cons {d : Char} {a b x y : List Char} (ha : d ∉ a) (hb : d ∉ b)
    (h : a ++ d :: x = b ++ d :: y) : a = b := by
  rcases List.append_eq_append_iff.1 h with ⟨as, hb', hx⟩ | ⟨bs, ha', hy⟩
  · cases as with
    | nil => rw [hb', List.append_nil]
    | cons c as =>
      obtain ⟨rfl, -⟩ := List.cons.inj hx
      exact absurd (hb' ▸ List.mem_append_right _ List.mem_cons_self) hb
  · cases bs with
    | nil => rw [ha', List.append_nil]
    | cons c bs =>
      obtain ⟨rfl, -⟩ := List.cons.inj hy
      exact absurd (ha' ▸ List.mem_append_right _ List.mem_cons_self) ha

/-- No character outside the two ranges is a word character. -/
theorem ne_of_isSlugChar {c d : Char} (h : isSlugChar c = true) (hd : isSlugChar d = false) :
    c ≠ d := by
  rintro rfl
  rw [h] at hd
  cases hd

/-! ### Slugs -/

/-- Words joined by single separators. -/
inductive IsSlug (sep : Char) : List Char → Prop
  | single {c : Char} (hc : isSlugChar c = true) : IsSlug sep [c]
  | snoc {cs : List Char} {c : Char} (hcs : IsSlug sep cs) (hc :
    isSlugChar c = true) : IsSlug sep (cs ++ [c])
  | next {cs : List Char} {c : Char} (hcs : IsSlug sep cs) (hc :
    isSlugChar c = true) : IsSlug sep (cs ++ [sep] ++ [c])

namespace IsSlug

variable {sep : Char} {cs : List Char}

theorem ne_nil (h : IsSlug sep cs) : cs ≠ [] := by
  cases h <;> simp

theorem mem (h : IsSlug sep cs) {c : Char} (hc : c ∈ cs) : isSlugChar c = true ∨ c = sep := by
  induction h with
  | single hc' =>
    obtain rfl := List.mem_singleton.1 hc
    exact .inl hc'
  | snoc hcs hc' ih =>
    rcases List.mem_append.1 hc with hc | hc
    · exact ih hc
    · obtain rfl := List.mem_singleton.1 hc
      exact .inl hc'
  | next hcs hc' ih =>
    rcases List.mem_append.1 hc with hc | hc
    · rcases List.mem_append.1 hc with hc | hc
      · exact ih hc
      · exact .inr (List.mem_singleton.1 hc)
    · obtain rfl := List.mem_singleton.1 hc
      exact .inl hc'

/-- A slug ends in a word. -/
theorem eq_snoc (h : IsSlug sep cs) : ∃ init c, cs = init ++ [c] ∧ isSlugChar c = true := by
  cases h with
  | single hc => exact ⟨[], _, rfl, hc⟩
  | snoc hcs hc => exact ⟨_, _, rfl, hc⟩
  | next hcs hc => exact ⟨_, _, rfl, hc⟩

end IsSlug

/-! ### The loop -/

/-- What the loop has built: nothing, a slug, or a slug and a separator. -/
def SlugSoFar (sep : Char) (st : List Char × Bool) : Prop :=
  st = ([], false) ∨ (IsSlug sep st.1 ∧ st.2 = false) ∨ ∃ cs, IsSlug sep cs ∧
    st = (cs ++ [sep], true)

variable {sep : Char} {isSep : Char → Bool}

theorem slugStep_alphanum {st : List Char × Bool} {c : Char} (h : c.isAlphanum = true) :
    slugStep sep isSep st c = (st.1 ++ [c.toLower], false) := if_pos h

theorem slugStep_soFar {st : List Char × Bool} (h : SlugSoFar sep st) (c : Char) :
    SlugSoFar sep (slugStep sep isSep st c) := by
  by_cases hc : c.isAlphanum = true
  · rw [slugStep_alphanum hc]
    have hlow := isSlugChar_toLower hc
    rcases h with rfl | ⟨hslug, -⟩ | ⟨cs, hslug, rfl⟩
    · exact .inr (.inl ⟨.single hlow, rfl⟩)
    · exact .inr (.inl ⟨hslug.snoc hlow, rfl⟩)
    · exact .inr (.inl ⟨hslug.next hlow, rfl⟩)
  · unfold slugStep
    rw [if_neg hc]
    split
    · next hsep =>
      rcases h with rfl | ⟨hslug, hflag⟩ | ⟨cs, hslug, rfl⟩
      · simp at hsep
      · exact .inr (.inr ⟨st.1, hslug, rfl⟩)
      · simp at hsep
    · exact h

theorem foldl_slugStep_soFar (isSep : Char → Bool) (cs : List Char) {st : List Char × Bool}
    (h : SlugSoFar sep st) : SlugSoFar sep (cs.foldl (slugStep sep isSep) st) := by
  induction cs generalizing st with
  | nil => exact h
  | cons c cs ih => exact ih (slugStep_soFar h c)

/-- Trailing separators are cut from a slug: there are none. -/
theorem IsSlug.cut {cs : List Char} (hsep : isSlugChar sep = false) (h : IsSlug sep cs) :
    (cs.reverse.dropWhile (· = sep)).reverse = cs := by
  obtain ⟨init, c, rfl, hc⟩ := h.eq_snoc
  rw [List.reverse_append, List.reverse_singleton, List.singleton_append,
    List.dropWhile_cons_of_neg (by simpa using ne_of_isSlugChar hc hsep)]
  simp

theorem slug_isSlug (hsep : isSlugChar sep = false) (cs : List Char) :
    slug sep isSep cs = [] ∨ IsSlug sep (slug sep isSep cs) := by
  unfold slug
  rcases foldl_slugStep_soFar isSep cs (.inl rfl) with h | ⟨h, -⟩ | ⟨l, h, hst⟩
  · rw [h]
    exact .inl rfl
  · dsimp only
    rw [h.cut hsep]
    exact .inr h
  · rw [hst]
    dsimp only
    rw [List.reverse_append, List.reverse_singleton, List.singleton_append,
      List.dropWhile_cons_of_pos (by simp), h.cut hsep]
    exact .inr h

/-- A slug is built again as it is. -/
theorem foldl_slugStep_slug (hsep : sep.isAlphanum = false) (his : isSep sep = true)
    {cs : List Char}
    (h : IsSlug sep cs) : cs.foldl (slugStep sep isSep) ([], false) = (cs, false) := by
  have hword {c : Char} (hc : isSlugChar c = true) (st : List Char × Bool) :
      slugStep sep isSep st c = (st.1 ++ [c], false) := by
    rw [slugStep_alphanum (isAlphanum_of_isSlugChar hc), toLower_of_isSlugChar hc]
  induction h with
  | single hc => exact hword hc _
  | snoc hcs hc ih =>
    rw [List.foldl_append, ih]
    exact hword hc _
  | next hcs hc ih =>
    rw [List.foldl_append, List.foldl_append, ih]
    have hstep (l : List Char) (hl : l ≠ []) : [sep].foldl (slugStep sep isSep) (l, false) =
        (l ++ [sep], true) := by
      simp [slugStep, hsep, his, hl]
    rw [hstep _ hcs.ne_nil]
    exact hword hc _

theorem slug_of_isSlug (hsep : sep.isAlphanum = false) (his : isSep sep = true) {cs : List Char}
    (h : IsSlug sep cs) : slug sep isSep cs = cs := by
  have hchar : isSlugChar sep = false := by
    by_contra hc
    rw [isAlphanum_of_isSlugChar (Bool.not_eq_false _ ▸ hc)] at hsep
    cases hsep
  rw [slug, foldl_slugStep_slug hsep his h]
  exact h.cut hchar

/-! ### Trimming -/

theorem dropWhile_eq_self {p : Char → Bool} {cs : List Char} (h : ∀ c ∈ cs, p c = false) :
    cs.dropWhile p = cs := by
  cases cs with
  | nil => rfl
  | cons c cs => exact List.dropWhile_cons_of_neg (by simp [h c])

theorem trimMatches_eq_self {p : Char → Bool} {cs : List Char} (h : ∀ c ∈ cs, p c = false) :
    trimMatches p cs = cs := by
  rw [trimMatches, dropWhile_eq_self h, dropWhile_eq_self fun c hc => h c (List.mem_reverse.1 hc),
    List.reverse_reverse]

theorem isWhitespace_of_isSlugChar {c : Char} (h : isSlugChar c = true) :
    isWhitespace c = false := by
  have hrange := isSlugChar_toNat h
  simp [isWhitespace]
  omega

/-! ### The words of a slug -/

/-- The letters and digits of a piece, in lower case. -/
def keep (w : List Char) : List Char := (w.filter Char.isAlphanum).map Char.toLower

/-- The words of the slug of `cs`, after the word `w` that is open. -/
def slugWords (isSep : Char → Bool) : List Char → List Char → List (List Char)
  | w, [] => [w].filter (· ≠ [])
  | w, c :: cs =>
    if c.isAlphanum then slugWords isSep (w ++ [c.toLower]) cs
    else if isSep c then [w].filter (· ≠ []) ++ slugWords isSep [] cs
    else slugWords isSep w cs

/-- What stands before the word that comes next. -/
def opening (sep : Char) (ws : List (List Char)) : List Char :=
  if ws = [] then [] else [sep].intercalate ws ++ [sep]

theorem intercalate_append_singleton (sep : Char) (ws : List (List Char)) (w : List Char) :
    [sep].intercalate (ws ++ [w]) = opening sep ws ++ w := by
  induction ws with
  | nil => simp [opening]
  | cons v ws ih =>
    cases ws with
    | nil => simp [opening]
    | cons u ws =>
      have hopen : opening sep (v :: u :: ws) = v ++ [sep] ++ opening sep (u :: ws) := by
        simp [opening]
      rw [List.cons_append, List.cons_append, List.intercalate_cons_cons, ← List.cons_append, ih,
        hopen]
      simp

/-- The cut at the end of `slug`. -/
def cutSep (sep : Char) (cs : List Char) : List Char := (cs.reverse.dropWhile (· = sep)).reverse

theorem cutSep_snoc (sep : Char) (cs : List Char) : cutSep sep (cs ++ [sep]) = cutSep sep cs := by
  rw [cutSep, List.reverse_append, List.reverse_singleton, List.singleton_append,
    List.dropWhile_cons_of_pos (by simp), cutSep]

/-- Letters at the end are not cut. -/
theorem cutSep_append {sep : Char} {w : List Char} (hw : w ≠ []) (hsep : sep ∉ w) (cs : List Char) :
    cutSep sep (cs ++ w) = cs ++ w := by
  obtain ⟨init, c, rfl⟩ := List.eq_nil_or_concat w |>.resolve_left hw
  have hne : c ≠ sep := by
    rintro rfl
    exact hsep (by simp)
  rw [List.concat_eq_append, cutSep, ← List.append_assoc, List.reverse_append,
    List.reverse_singleton, List.singleton_append, List.dropWhile_cons_of_neg (by simpa using hne)]
  simp

theorem cutSep_intercalate {sep : Char} {ws : List (List Char)} (h : ∀ w ∈ ws, w ≠ [] ∧ sep ∉ w) :
    cutSep sep ([sep].intercalate ws) = [sep].intercalate ws := by
  rcases List.eq_nil_or_concat ws with rfl | ⟨init, w, rfl⟩
  · rfl
  · obtain ⟨hw, hsep⟩ := h w (by simp)
    rw [List.concat_eq_append, intercalate_append_singleton]
    exact cutSep_append hw hsep _

theorem slugStep_skip {st : List Char × Bool} {c : Char} (hc : c.isAlphanum = false)
    (h : isSep c = false) : slugStep sep isSep st c = st := by
  simp [slugStep, hc, h]

/-- The loop from a state that is between words, or within the word `w`. -/
theorem cutSep_foldl_slugStep (hsep : sep.isAlphanum = false) (cs : List Char) :
    (∀ ws : List (List Char), (∀ w ∈ ws, w ≠ [] ∧ sep ∉ w) →
        cutSep sep (cs.foldl (slugStep sep isSep) (opening sep ws, !ws.isEmpty)).1 =
          [sep].intercalate (ws ++ slugWords isSep [] cs)) ∧
      ∀ (ws : List (List Char)) (w : List Char), (∀ w ∈ ws, w ≠ [] ∧ sep ∉ w) → w ≠ [] → sep ∉ w →
        cutSep sep (cs.foldl (slugStep sep isSep) ([sep].intercalate (ws ++ [w]), false)).1 =
          [sep].intercalate (ws ++ slugWords isSep w cs) := by
  induction cs with
  | nil =>
    refine ⟨fun ws hws => ?_, fun ws w hws hw hmem => ?_⟩
    · rw [List.foldl_nil, slugWords, List.filter_cons_of_neg (by simp), List.filter_nil,
        List.append_nil]
      unfold opening
      split
      · next h => subst h; rfl
      · rw [cutSep_snoc, cutSep_intercalate hws]
    · rw [List.foldl_nil, slugWords, List.filter_cons_of_pos (by simpa using hw), List.filter_nil]
      refine cutSep_intercalate fun v hv => ?_
      rcases List.mem_append.1 hv with hv | hv
      · exact hws v hv
      · obtain rfl := List.mem_singleton.1 hv
        exact ⟨hw, hmem⟩
  | cons c cs ih =>
    have hlower (hc : c.isAlphanum = true) : sep ≠ c.toLower := by
      rintro rfl
      have := isAlphanum_of_isSlugChar (isSlugChar_toLower hc)
      rw [hsep] at this
      cases this
    refine ⟨fun ws hws => ?_, fun ws w hws hw hmem => ?_⟩
    · rw [List.foldl_cons]
      by_cases hc : c.isAlphanum = true
      · rw [slugStep_alphanum hc, slugWords, if_pos hc, ← intercalate_append_singleton,
          List.nil_append]
        exact ih.2 ws [c.toLower] hws (by simp) (by simpa using hlower hc)
      · have hc' : c.isAlphanum = false := by simpa using hc
        have hstep : slugStep sep isSep (opening sep ws, !ws.isEmpty) c =
            (opening sep ws, !ws.isEmpty) := by
          unfold slugStep opening
          cases ws <;> simp [hc']
        rw [hstep, slugWords, if_neg hc, ih.1 ws hws]
        split <;> simp
    · rw [List.foldl_cons]
      by_cases hc : c.isAlphanum = true
      · have hsnoc : [sep].intercalate (ws ++ [w]) ++
            [c.toLower] = [sep].intercalate (ws ++ [w ++ [c.toLower]]) := by
          rw [intercalate_append_singleton, intercalate_append_singleton, List.append_assoc]
        rw [slugStep_alphanum hc, slugWords, if_pos hc]
        dsimp only
        rw [hsnoc]
        refine ih.2 ws _ hws (by simp) ?_
        simpa [hmem] using hlower hc
      · have hc' : c.isAlphanum = false := by simpa using hc
        rw [slugWords, if_neg hc]
        cases his : isSep c with
        | true =>
          have hne : ([sep].intercalate (ws ++ [w])) ≠ [] := by
            rw [intercalate_append_singleton]
            simp [hw]
          have hstep : slugStep sep isSep ([sep].intercalate (ws ++ [w]), false) c =
              (opening sep (ws ++ [w]), !(ws ++ [w]).isEmpty) := by
            simp [slugStep, hc', his, hne, opening]
          rw [hstep, if_pos rfl, List.filter_cons_of_pos (by simpa using hw), List.filter_nil,
            ← List.append_assoc]
          refine ih.1 (ws ++ [w]) fun v hv => ?_
          rcases List.mem_append.1 hv with hv | hv
          · exact hws v hv
          · obtain rfl := List.mem_singleton.1 hv
            exact ⟨hw, hmem⟩
        | false =>
          rw [slugStep_skip hc' his, if_neg (by simp)]
          exact ih.2 ws w hws hw hmem

theorem slug_eq_intercalate (hsep : sep.isAlphanum = false) (cs : List Char) :
    slug sep isSep cs = [sep].intercalate (slugWords isSep [] cs) :=
  (cutSep_foldl_slugStep hsep cs).1 [] (by simp)

/-- The word that is open only stands in front of the first piece. -/
theorem slugWords_eq (isSep : Char → Bool) (hsep : ∀ c, c.isAlphanum = true → isSep c = false)
    (cs : List Char) : ∃ k rest, (cs.splitOnP isSep).map keep = k :: rest ∧
      ∀ w, slugWords isSep w cs = [w ++ k].filter (· ≠ []) ++ rest.filter (· ≠ []) := by
  induction cs with
  | nil => exact ⟨[], [], rfl, fun w => by simp [slugWords]⟩
  | cons c cs ih =>
    obtain ⟨k, rest, hpieces, hwords⟩ := ih
    rw [List.splitOnP_cons_eq_if_modifyHead]
    by_cases hc : c.isAlphanum = true
    · refine ⟨c.toLower :: k, rest, ?_, fun w => ?_⟩
      · obtain ⟨p, ps, hp⟩ := List.exists_cons_of_ne_nil (List.splitOnP_ne_nil isSep cs)
        rw [hp, List.map_cons, List.cons.injEq] at hpieces
        rw [if_neg (by simp [hsep c hc]), hp, List.modifyHead_cons, List.map_cons, hpieces.2,
          ← hpieces.1]
        simp [keep, hc]
      · rw [slugWords, if_pos hc, hwords, List.append_assoc, List.singleton_append]
    · have hc' : c.isAlphanum = false := by simpa using hc
      cases his : isSep c with
      | true =>
        refine ⟨[], k :: rest, by rw [if_pos rfl, List.map_cons, hpieces]; rfl, fun w => ?_⟩
        rw [slugWords, if_neg hc, if_pos his, hwords, List.nil_append, List.append_nil,
          ← List.filter_append, List.singleton_append]
      | false =>
        refine ⟨k, rest, ?_, fun w => by rw [slugWords, if_neg hc, if_neg (by simp [his]), hwords]⟩
        obtain ⟨p, ps, hp⟩ := List.exists_cons_of_ne_nil (List.splitOnP_ne_nil isSep cs)
        rw [hp, List.map_cons, List.cons.injEq] at hpieces
        rw [if_neg (by simp), hp, List.modifyHead_cons, List.map_cons, hpieces.2, ← hpieces.1]
        simp [keep, hc']

/-- Characters that are not of a word are dropped in front and at the end. -/
theorem slugWords_cons {c : Char} (hc : c.isAlphanum = false) (cs : List Char) :
    slugWords isSep [] (c :: cs) = slugWords isSep [] cs := by
  rw [slugWords, if_neg (by simp [hc])]
  split <;> simp

theorem slugWords_append {c : Char} (hc : c.isAlphanum = false) (cs w : List Char) :
    slugWords isSep w (cs ++ [c]) = slugWords isSep w cs := by
  induction cs generalizing w with
  | nil =>
    cases his : isSep c <;> simp [slugWords, hc, his]
  | cons d cs ih =>
    rw [List.cons_append, slugWords, slugWords, ih, ih, ih]

theorem slugWords_trimMatches {p : Char → Bool} (hp : ∀ c, p c = true → c.isAlphanum = false)
    (cs : List Char) : slugWords isSep [] (trimMatches p cs) = slugWords isSep [] cs := by
  have hfront (l : List Char) : slugWords isSep [] (l.dropWhile p) = slugWords isSep [] l := by
    induction l with
    | nil => rfl
    | cons c l ih =>
      cases hc : p c with
      | true => rw [List.dropWhile_cons_of_pos hc, ih, slugWords_cons (hp c hc)]
      | false => rw [List.dropWhile_cons_of_neg (by simp [hc])]
  have hback (l : List Char) : slugWords isSep [] (l.dropWhile p).reverse = slugWords isSep []
      l.reverse := by
    induction l with
    | nil => rfl
    | cons c l ih =>
      cases hc : p c with
      | true =>
        rw [List.dropWhile_cons_of_pos hc, ih, List.reverse_cons, slugWords_append (hp c hc)]
      | false => rw [List.dropWhile_cons_of_neg (by simp [hc])]
  rw [trimMatches, hback, List.reverse_reverse, hfront]

end Text
