import Solo.LogTail.Quiet

/-!
# One pass after another

A pass ends without a panic, it covers values, and it leaves nothing unmasked behind its marker
exactly if it misses nothing (`redact_masks_iff`). The other markers keep what they have, so
`sanitizeLogText_masks` follows for all nineteen.
-/

namespace Solo

namespace LogTail

open Bytes (width len splitAt? slice? charIndices len_append len_cons len_nil splitAt?_append)

/-! ### Where the next marker is -/

theorem width_toLower (c : Char) : width c.toLower = width c := by
  by_cases hc : c.isAlphanum = true
  · have hall :=
      Text.forall_ascii (p := fun c => decide (width c.toLower = width c)) (by decide +kernel)
      (Text.isAlphanum_toNat hc)
    exact of_decide_eq_true hall
  · rw [Text.toLower_of_not_isAlphanum (eq_false_of_ne_true hc)]

theorem len_toAsciiLowercase (cs : List Char) : len (Text.toAsciiLowercase cs) = len cs := by
  induction cs with
  | nil => rfl
  | cons c cs ih =>
    rw [Text.toAsciiLowercase, List.map_cons, len_cons, len_cons, width_toLower]
    exact congrArg (width c + ·) ih

theorem toAsciiLowercase_append (a b : List Char) :
    Text.toAsciiLowercase (a ++ b) = Text.toAsciiLowercase a ++ Text.toAsciiLowercase b :=
    List.map_append

/-- The first place where a word stands, in any case of its letters. -/
theorem findStr_lower (word b : List Char) :
    (findStr word (Text.toAsciiLowercase b) = none ∧
        ∀ s₁ s₂, b = s₁ ++ s₂ → s₂ ≠ [] → ¬ word <+: Text.toAsciiLowercase s₂) ∨
      ∃ x k y, b = x ++ (k ++ y) ∧ Text.toAsciiLowercase k = word ∧
      findStr word (Text.toAsciiLowercase b) = some (len x) ∧
        ∀ s₁ s₂, x = s₁ ++ s₂ → s₂ ≠ [] → ¬ word <+: Text.toAsciiLowercase (s₂ ++ (k ++ y)) := by
  induction b with
  | nil =>
    left
    refine ⟨rfl, fun s₁ s₂ heq hne => absurd (List.append_eq_nil_iff.1 heq.symm).2 hne⟩
  | cons c b ih =>
    have hfind : findStr word (Text.toAsciiLowercase (c :: b)) = if word <+: Text.toAsciiLowercase
        (c :: b) then some 0
        else (findStr word (Text.toAsciiLowercase b)).map (width c + ·) := by
      rw [← width_toLower c]
      rfl
    by_cases hpre : word <+: Text.toAsciiLowercase (c :: b)
    · right
      obtain ⟨t, ht⟩ := hpre
      obtain ⟨k, y, hky, hk, -⟩ := List.map_eq_append_iff.1 ht.symm
      refine ⟨[], k, y, hky, hk, by rw [hfind, if_pos ⟨t, ht⟩]; rfl, fun s₁ s₂ heq hne => ?_⟩
      exact absurd (List.append_eq_nil_iff.1 heq.symm).2 hne
    · rw [if_neg hpre] at hfind
      rcases ih with ⟨hnone, hno⟩ | ⟨x, k, y, rfl, hk, hsome, hno⟩
      · left
        refine ⟨by rw [hfind, hnone]; rfl, fun s₁ s₂ heq hne => ?_⟩
        cases s₁ with
        | nil =>
          rw [List.nil_append] at heq
          rwa [← heq]
        | cons d s₁ => exact hno s₁ s₂ (List.cons.inj heq).2 hne
      · right
        refine ⟨c :: x, k, y, rfl, hk, by rw [hfind, hsome, len_cons]; rfl, fun s₁ s₂ heq hne => ?_⟩
        cases s₁ with
        | nil =>
          rw [List.nil_append] at heq
          rwa [← heq]
        | cons d s₁ => exact hno s₁ s₂ (List.cons.inj heq).2 hne

variable {m : Marker}

theorem quiet_of_none {b : List Char}
    (h : ∀ s₁ s₂, b = s₁ ++ s₂ → s₂ ≠ [] → ¬ m.word <+: Text.toAsciiLowercase s₂)
    (o : List Char) : Quiet m o b [] := by
  intro s₁ s₂ s rest heq hne hs hhead
  obtain ⟨k, x, rfl, hk, -⟩ := hhead
  refine absurd ?_ (h s₁ s₂ heq hne)
  rw [List.append_nil] at hs
  rw [hs, List.append_assoc, toAsciiLowercase_append, hk]
  exact List.prefix_append _ _

/-- Before the first place of a word no marker begins, whatever follows the word. -/
theorem quiet_before {x k y : List Char} (hk : Text.toAsciiLowercase k = m.word)
    (h : ∀ s₁ s₂, x = s₁ ++ s₂ → s₂ ≠ [] → ¬ m.word <+: Text.toAsciiLowercase (s₂ ++ (k ++ y)))
    (o z : List Char) : Quiet m o x (k ++ z) := by
  intro s₁ s₂ s rest heq hne hs hhead
  obtain ⟨k', t, rfl, hk', -⟩ := hhead
  refine absurd ?_ (h s₁ s₂ heq hne)
  have hlen : k'.length ≤ (s₂ ++ k).length := by
    have := congrArg List.length (hk.trans hk'.symm)
    simp only [Text.toAsciiLowercase, List.length_map] at this
    rw [List.length_append]
    omega
  have hword : k' <+: s₂ ++ (k ++ z) := ⟨t ++ rest, by rw [hs, List.append_assoc]⟩
  have hboth : s₂ ++ k <+: s₂ ++ (k ++ z) := ⟨z, List.append_assoc ..⟩
  obtain ⟨e, he⟩ := List.prefix_of_prefix_length_le hword hboth hlen
  rw [← List.append_assoc, ← he, List.append_assoc, toAsciiLowercase_append, hk']
  exact List.prefix_append _ _

/-! ### What follows a marker -/

/-- What a pass does after its marker `k`, between `pre` and `y`. -/
inductive Follows (m : Marker) (pre k y : List Char) : Move → Prop
  | done (hq : ∀ o, Quiet m o (k ++ y) []) : Follows m pre k y .done
  | copy {s z : List Char} (hy : y = s ++ z)
    (hq : ∀ o, Boundary o → ¬ m.Misses y → Quiet m o (k ++ s) z) :
    Follows m pre k y (.copy (len (pre ++ (k ++ s))))
  | mask {seg v w : List Char} (hy : y = seg ++ (v ++ w)) (hc : ∀ o, Cover (o ++ (k ++ seg)) v w)
    (hq : ∀ o, Quiet m o (k ++ seg) (redacted ++ w)) :
    Follows m pre k y (.mask (len (pre ++ (k ++ seg))) (len (pre ++ (k ++ (seg ++ v)))))

theorem len_append_eq {a v : List Char} : len (a ++ v) = len a ↔ v = [] := by
  rw [len_append, Nat.add_eq_left, Bytes.len_eq_zero]

/-- A separator, blanks and a value. -/
theorem follows_ofRange (hm : m.Wordy) {k : List Char} (hk : Text.toAsciiLowercase k = m.word)
    (pre : List Char)
    {g seg v w : List Char} {c : Char} (hg : ∀ d ∈ g, isTailChar d = true)
    (hc : isTailChar c = true) (hquote : isQuote c = false) (hrange : IsRange seg v w)
    (hparse : ∀ z x rest, m.Tail x → g ++ c :: (seg ++ z) = x ++ rest → ∃ h, Blank h ∧ seg ++
      z = h ++ rest) :
    Follows m pre k (g ++ c :: (seg ++ (v ++ w)))
      (.ofRange (len (pre ++ (k ++ (g ++ c :: seg))))
        (len (pre ++ (k ++ (g ++ c :: seg ++ v))))) := by
  have hquiet {z : List Char} (hz : Masked ((seg ++ z).dropWhile isBlank)) (o : List Char) :
      Quiet m o (k ++ (g ++ c :: seg)) z := by
    refine Quiet.append (quiet_word hm hk fun _ x rest hx heq => ?_)
      (quiet_of_isTailChar hm (fun d hd => ?_) _ _)
    · rw [List.append_assoc] at heq
      obtain ⟨h, hh, hrest⟩ := hparse z x rest hx heq
      exact masked_of_blank hh hrest hz
    · rcases List.mem_append.1 hd with hd | hd
      · exact hg d hd
      rcases List.mem_cons.1 hd with rfl | hd
      · exact hc
      · exact hrange.isTailChar hd
  have hsplit : pre ++ (k ++ (g ++ c :: seg ++ v)) = pre ++ (k ++ (g ++ c :: seg)) ++ v := by
    simp only [List.append_assoc]
  by_cases hv : v = []
  · subst hv
    rw [Move.ofRange, hsplit, if_pos (len_append_eq.2 rfl)]
    exact .copy (z := w) (by simp) fun o _ _ => hquiet hrange.masked_of_nil o
  · have hne : len (pre ++ (k ++ (g ++ c :: seg ++ v))) ≠ len (pre ++ (k ++ (g ++ c :: seg))) := by
      rw [hsplit]
      exact fun h => hv (len_append_eq.1 h)
    rw [Move.ofRange, if_neg hne]
    refine .mask (w := w) (by simp) (fun o => ?_) (hquiet hrange.masked)
    have hcover := hrange.cover hc hquote (o ++ (k ++ g))
    simpa only [List.append_assoc] using hcover

/-- Before the next character that is not a blank. -/
theorem skipHorizontalWhitespace_spec (a b : List Char) :
    ∃ h z, b = h ++ z ∧ Blank h ∧ (∀ c ∈ z.head?, isBlank c = false) ∧
      skipHorizontalWhitespace (a ++ b) (len a) = some (len (a ++ h)) :=
  ⟨b.takeWhile isBlank, b.dropWhile isBlank, List.takeWhile_append_dropWhile.symm,
    fun _ => List.mem_takeWhile_imp, head?_dropWhile_not, skipHorizontalWhitespace_append a b⟩

/-- A marker at the end of the text. -/
theorem follows_end (hm : m.Wordy) {k : List Char} (hk : Text.toAsciiLowercase k = m.word)
    (pre : List Char) : Follows m pre k [] .done := by
  refine .done fun o => ?_
  rw [List.append_nil]
  refine quiet_word hm hk fun _ x rest hx heq => ?_
  exact absurd (List.append_eq_nil_iff.1 heq.symm).1 hx.ne_nil

theorem isQuote_of_isWhitespace {c : Char} (h : Text.isWhitespace c = true) :
    isQuote c = false := by
  refine eq_false_of_ne_true fun hq => ?_
  simp only [isQuote, Bool.or_eq_true, decide_eq_true_eq] at hq
  rcases hq with rfl | rfl <;> cases h

theorem bearerMove_follows {k : List Char} (hk : Text.toAsciiLowercase k = Marker.bearer.word)
    (pre y : List Char) :
    ∃ move, bearerMove (pre ++ (k ++ y)) (len (pre ++ k)) = some move ∧
    Follows .bearer pre k y move := by
  have hm : Marker.bearer.Wordy := wordy_of_mem List.mem_cons_self
  have hnext := nextCharAt_append (pre ++ k) y
  rw [List.append_assoc] at hnext
  unfold bearerMove
  rw [hnext, Option.bind_eq_bind, Option.bind_some]
  cases y with
  | nil => exact ⟨.done, rfl, follows_end hm hk pre⟩
  | cons c y =>
    rw [List.head?_cons, Option.map_some, Option.elim_some]
    by_cases hc : Text.isWhitespace c = true
    · obtain ⟨h, z, rfl, hh, hz, hskip⟩ := skipHorizontalWhitespace_spec (pre ++ k ++ [c]) y
      have hend := secretValueEnd_append (pre ++ k ++ [c] ++ h) z
      simp only [List.append_assoc, List.cons_append, List.nil_append] at hskip hend ⊢
      rw [if_pos hc, hskip, Option.bind_eq_bind, Option.bind_some, hend, Option.bind_some]
      refine ⟨_, rfl, ?_⟩
      have htail {x rest t : List Char} (hx : Marker.bearer.Tail x) (heq : c :: t = x ++ rest) :
          ∃ h, Blank h ∧ t = h ++ rest := by
        obtain ⟨d, h, rfl, -, hh⟩ := hx
        exact ⟨h, hh, (List.cons.inj heq).2⟩
      have hctail : isTailChar c = true := by rw [isTailChar, hc, Bool.or_true]
      by_cases hquote : ∃ q z', z = q :: z' ∧ isQuote q = true
      · -- a quoted value is not looked for
        obtain ⟨q, z', rfl, hq⟩ := hquote
        have hempty : ((q :: z').takeWhile fun c => !isValueEnd c) = [] :=
          List.takeWhile_cons_of_neg (by rw [isValueEnd_of_isQuote hq]; exact Bool.false_ne_true)
        rw [hempty, List.append_nil, Move.ofRange, if_pos rfl]
        refine .copy (z := q :: z') rfl fun o ho hmiss => ?_
        refine Quiet.append (quiet_word hm hk fun _ x rest hx heq => ?_)
          (quiet_of_isTailChar hm (fun d hd => ?_) _ _)
        · obtain ⟨h', hh', hrest⟩ := htail (t := h ++ q :: z') hx heq
          refine masked_of_blank hh' hrest ?_
          rw [dropWhile_blank_append hh hz]
          exact by_contra fun hmasked =>
            hmiss ⟨c :: h, q :: z', rfl, ⟨c, h, rfl, hc, hh⟩, hq, hmasked⟩
        · rcases List.mem_cons.1 hd with rfl | hd
          · exact hctail
          · exact hh.isTailChar hd
      · have hrange : IsRange h (z.takeWhile fun c => !isValueEnd c)
            (z.dropWhile fun c => !isValueEnd c) := by
          refine .plain hh ?_ (fun c hc => not_of_mem_takeWhile hc)
            (fun d hd => by simpa using head?_dropWhile_not d hd)
          rw [List.takeWhile_append_dropWhile]
          intro d hd
          refine ⟨hz d hd, eq_false_of_ne_true fun hq => hquote ?_⟩
          obtain ⟨z', rfl⟩ := List.head?_eq_some_iff.1 hd
          exact ⟨d, z', rfl, hq⟩
        have hfollows :=
          follows_ofRange hm hk pre (g := []) (fun d hd => absurd hd List.not_mem_nil) hctail
          (isQuote_of_isWhitespace hc) hrange fun t x rest hx heq => htail hx heq
        rwa [List.takeWhile_append_dropWhile] at hfollows
    · rw [if_neg hc]
      refine ⟨_, rfl, ?_⟩
      rw [List.append_assoc]
      refine .copy (s := [c]) rfl fun o _ _ =>
        Quiet.append (quiet_word hm hk fun _ x rest hx heq => ?_) (quiet_after_word hm hk o c y)
      obtain ⟨d, h, rfl, hd, -⟩ := hx
      obtain ⟨rfl, -⟩ := List.cons.inj heq
      exact absurd hd hc

theorem IsRange.blank_append {h seg v w : List Char} (hh : Blank h) (hrange : IsRange seg v w) :
    IsRange (h ++ seg) v w := by
  cases hrange with
  | plain hseg hnext hv hw => exact .plain (List.forall_mem_append.2 ⟨hh, hseg⟩) hnext hv hw
  | quoted hh' hq hv hw =>
    rw [← List.append_assoc]
    exact .quoted (List.forall_mem_append.2 ⟨hh, hh'⟩) hq hv hw

theorem flagMove_follows {word k : List Char} (hm : (Marker.flag word).Wordy)
    (hk : Text.toAsciiLowercase k = word) (pre y : List Char) :
    ∃ move, flagMove (pre ++ (k ++ y)) (len (pre ++ k)) = some move ∧
    Follows (.flag word) pre k y move := by
  have hnext := nextCharAt_append (pre ++ k) y
  rw [List.append_assoc] at hnext
  unfold flagMove
  rw [hnext, Option.bind_eq_bind, Option.bind_some]
  cases y with
  | nil => exact ⟨.done, rfl, follows_end hm hk pre⟩
  | cons c y =>
    rw [List.head?_cons, Option.map_some, Option.elim_some]
    by_cases hc : (c = '=' || Text.isWhitespace c) = true
    · obtain ⟨h, z, rfl, hh, -, hskip⟩ := skipHorizontalWhitespace_spec (pre ++ k ++ [c]) y
      obtain ⟨seg, v, w, rfl, hrange, hvalue⟩ := secretValueRange_append (pre ++ k ++ [c] ++ h) z
      simp only [List.append_assoc, List.cons_append, List.nil_append] at hskip hvalue ⊢
      rw [if_pos hc, hskip, Option.bind_eq_bind, Option.bind_some, hvalue, Option.bind_eq_bind,
        Option.bind_some]
      refine ⟨_, rfl, ?_⟩
      have hcases : c = '=' ∨ Text.isWhitespace c = true := by simpa using hc
      have htail : isTailChar c = true ∧ isQuote c = false := by
        rcases hcases with rfl | hws
        · decide
        · exact ⟨by rw [isTailChar, hws, Bool.or_true], isQuote_of_isWhitespace hws⟩
      have hfollows :=
        follows_ofRange hm hk pre (g := []) (fun d hd => absurd hd List.not_mem_nil) htail.1 htail.2
        (hrange.blank_append hh) fun t x rest hx heq => ?_
      · simpa only [List.append_assoc, List.cons_append, List.nil_append] using hfollows
      · obtain ⟨d, h', rfl, -, hh'⟩ := hx
        exact ⟨h', hh', (List.cons.inj heq).2⟩
    · rw [if_neg hc]
      refine ⟨_, rfl, ?_⟩
      rw [List.append_assoc]
      refine .copy (s := [c]) rfl fun o _ _ =>
        Quiet.append (quiet_word hm hk fun _ x rest hx heq => ?_) (quiet_after_word hm hk o c y)
      obtain ⟨d, h, rfl, hd, -⟩ := hx
      obtain ⟨rfl, -⟩ := List.cons.inj heq
      exact absurd (by simpa using hd) hc

/-- What follows the gap after a key. -/
def afterGap (y : List Char) : List Char :=
  let z := y.dropWhile isBlank
  if z.head?.any isQuote then z.tail.dropWhile isBlank else z

theorem afterGap_append {g z : List Char} {sep : Char} (hg : Gap g) (hb : isBlank sep = false)
    (hq : isQuote sep = false) : afterGap (g ++ sep :: z) = sep :: z := by
  have hsep : ∀ c ∈ (sep :: z).head?, isBlank c = false := by
    rintro c ⟨⟩
    exact hb
  unfold afterGap
  rcases hg with hg | ⟨s₁, q, s₂, rfl, hquote, h₁, h₂⟩
  · rw [dropWhile_blank_append hg hsep]
    simp [hq]
  · have hquoteBlank : ∀ c ∈ (q :: (s₂ ++ sep :: z)).head?, isBlank c = false := by
      rintro c ⟨⟩
      exact isBlank_of_isQuote hquote
    rw [List.append_assoc, List.cons_append, dropWhile_blank_append h₁ hquoteBlank]
    simp only [List.head?_cons, Option.any_some, hquote, if_true, List.tail_cons]
    exact dropWhile_blank_append h₂ hsep

/-- Where `assignmentMove` looks for the separator. -/
theorem sepIndex_spec (a y : List Char) :
    ∃ g z, y = g ++ z ∧ Gap g ∧ afterGap y = z ∧
      ((skipHorizontalWhitespace (a ++ y) (len a)).bind fun sepIndex =>
        (nextCharAt (a ++ y) sepIndex).bind fun next => next.elim (some sepIndex) fun p =>
          if isQuote p.2 then skipHorizontalWhitespace (a ++ y) p.1 else some sepIndex) =
            some (len (a ++ g)) := by
  obtain ⟨h, z, rfl, hh, hz, hskip⟩ := skipHorizontalWhitespace_spec a y
  have hnext := nextCharAt_append (a ++ h) z
  rw [List.append_assoc] at hnext
  rw [hskip, Option.bind_some, hnext, Option.bind_some]
  by_cases hquote : ∃ q z', z = q :: z' ∧ isQuote q = true
  · obtain ⟨q, z', rfl, hq⟩ := hquote
    obtain ⟨h₂, z, rfl, hh₂, hz₂, hskip₂⟩ := skipHorizontalWhitespace_spec (a ++ h ++ [q]) z'
    refine ⟨h ++ q :: h₂, z, by simp, .inr ⟨h, q, h₂, rfl, hq, hh, hh₂⟩, ?_, ?_⟩
    · unfold afterGap
      rw [dropWhile_blank_append hh hz]
      simp only [List.head?_cons, Option.any_some, hq, if_true, List.tail_cons]
      exact dropWhile_blank_append hh₂ hz₂
    · simp only [List.append_assoc, List.cons_append, List.nil_append] at hskip₂ ⊢
      rw [List.head?_cons, Option.map_some, Option.elim_some, if_pos hq]
      exact hskip₂
  · have hany : z.head?.any isQuote = false := by
      cases z with
      | nil => rfl
      | cons c z => exact eq_false_of_ne_true fun hq => hquote ⟨c, z, rfl, hq⟩
    refine ⟨h, z, rfl, .inl hh, ?_, ?_⟩
    · unfold afterGap
      rw [dropWhile_blank_append hh hz]
      simp [hany]
    · cases z with
      | nil => rfl
      | cons c z =>
        have hc : isQuote c = false := hany
        rw [List.head?_cons, Option.map_some, Option.elim_some, hc, if_neg Bool.false_ne_true]

theorem afterGap_tail {word x : List Char} (hx : (Marker.key word).Tail x) (rest : List Char) :
    ∃ sep h, (sep = '=' ∨ sep = ':') ∧ Blank h ∧ afterGap (x ++ rest) = sep :: (h ++ rest) := by
  obtain ⟨g, sep, h, rfl, hg, hsep, hh⟩ := hx
  refine ⟨sep, h, hsep, hh, ?_⟩
  rw [List.append_assoc, List.cons_append]
  rcases hsep with rfl | rfl <;> exact afterGap_append hg (by decide) (by decide)

theorem assignmentMove_append {g z : List Char} (hz : afterGap (g ++ z) = z) (pre k : List Char) :
    assignmentMove (pre ++ (k ++ (g ++ z))) (len (pre ++ k)) =
      (z.head?.map fun c => (len (pre ++ (k ++ (g ++ [c]))), c)).elim (some .done) fun p =>
        if p.2 ≠ '=' ∧ p.2 ≠ ':' then some (.copy p.1)
        else (secretValueRange (pre ++ (k ++ (g ++ z))) p.1).map fun value =>
          .ofRange value.1 value.2 := by
  obtain ⟨g', z', heq, -, hz', hsepIndex⟩ := sepIndex_spec (pre ++ k) (g ++ z)
  obtain rfl : z = z' := hz.symm.trans hz'
  obtain rfl : g = g' := List.append_cancel_right heq
  have hnext := nextCharAt_append (pre ++ k ++ g) z
  simp only [List.append_assoc] at hsepIndex hnext
  unfold assignmentMove
  simp only [Option.bind_eq_bind, ← Option.bind_assoc] at hsepIndex ⊢
  rw [hsepIndex, Option.bind_some, hnext, Option.bind_some]

theorem assignmentMove_follows {word k : List Char} (hm : (Marker.key word).Wordy)
    (hk : Text.toAsciiLowercase k = word) (pre y : List Char) :
    ∃ move, assignmentMove (pre ++ (k ++ y)) (len (pre ++ k)) = some move ∧
    Follows (.key word) pre k y move := by
  obtain ⟨g, z, rfl, hg, hz, -⟩ := sepIndex_spec (pre ++ k) y
  have htail {x rest : List Char} (hx : (Marker.key word).Tail x) (heq : g ++ z = x ++ rest) :
      ∃ sep h, (sep = '=' ∨ sep = ':') ∧ Blank h ∧ z = sep :: (h ++ rest) := by
    obtain ⟨sep, h, hsep, hh, hgap⟩ := afterGap_tail hx rest
    rw [← heq, hz] at hgap
    exact ⟨sep, h, hsep, hh, hgap⟩
  rw [assignmentMove_append hz]
  cases z with
  | nil =>
    refine ⟨.done, rfl, .done fun o => ?_⟩
    rw [List.append_nil]
    refine Quiet.append (quiet_word hm hk fun _ x rest hx heq => ?_)
      (quiet_of_isTailChar hm (fun c hc => hg.isTailChar hc) _ _)
    obtain ⟨sep, h, -, -, hnil⟩ := htail hx heq
    cases hnil
  | cons c z =>
    rw [List.head?_cons, Option.map_some, Option.elim_some]
    by_cases hc : c ≠ '=' ∧ c ≠ ':'
    · rw [if_pos hc]
      refine ⟨_, rfl, .copy (s := g ++ [c]) (z := z) (by simp) fun o ho hmiss => ?_⟩
      refine Quiet.append (quiet_word hm hk fun _ x rest hx heq => ?_)
        (Quiet.append (quiet_of_isTailChar hm (fun d hd => hg.isTailChar hd) _ _) ?_)
      · rw [List.append_assoc] at heq
        obtain ⟨sep, h, hsep, -, hcons⟩ := htail hx heq
        obtain ⟨rfl, -⟩ := List.cons.inj hcons
        rcases hsep with rfl | rfl
        · exact absurd rfl hc.1
        · exact absurd rfl hc.2
      · -- the character that is stepped over may begin the next marker
        by_cases hne : g = []
        · subst hne
          rw [List.append_nil]
          exact quiet_after_word hm hk o c z
        · intro s₁ s₂ s rest heq hne' hs hhead hpre
          obtain ⟨rfl, rfl⟩ : s₁ = [] ∧ s₂ = [c] := by
            cases s₁ with
            | nil => exact ⟨rfl, heq.symm⟩
            | cons d s₁ => exact absurd (List.append_eq_nil_iff.1 (List.cons.inj heq).2.symm).2 hne'
          rw [List.singleton_append] at hs
          exact by_contra fun hmasked => hmiss ⟨g, s, rest, by rw [hs], hg, hne, hhead, hmasked⟩
    · rw [if_neg hc]
      obtain ⟨seg, v, w, rfl, hrange, hvalue⟩ :=
        secretValueRange_append (pre ++ (k ++ (g ++ [c]))) z
      simp only [List.append_assoc, List.cons_append, List.nil_append] at hvalue ⊢
      rw [hvalue, Option.map_some]
      refine ⟨_, rfl, ?_⟩
      have hsep : c = '=' ∨ c = ':' := by
        by_cases heq : c = '='
        · exact .inl heq
        · exact .inr (by_contra fun hcolon => hc ⟨heq, hcolon⟩)
      have hctail : isTailChar c = true ∧ isQuote c = false ∧ isBlank c = false := by
        rcases hsep with rfl | rfl <;> decide
      have hfollows :=
        follows_ofRange hm hk pre (fun d hd => hg.isTailChar hd) hctail.1 hctail.2.1 hrange
        fun t x rest hx heq => ?_
      · simpa only [List.append_assoc, List.cons_append, List.nil_append] using hfollows
      · obtain ⟨sep, h, -, hh, hgap⟩ := afterGap_tail hx rest
        rw [← heq, afterGap_append hg hctail.2.2 hctail.2.1] at hgap
        exact ⟨h, hh, (List.cons.inj hgap).2⟩

/-! ### What is missed -/

theorem follow_spec (hm : m.Wordy) {k : List Char} (hk : Text.toAsciiLowercase k = m.word)
    (pre y : List Char) :
    ∃ move, m.follow (pre ++ (k ++ y)) (len (pre ++ k)) = some move ∧ Follows m pre k y move := by
  cases m with
  | bearer => exact bearerMove_follows hk pre y
  | key word => exact assignmentMove_follows hm hk pre y
  | flag word => exact flagMove_follows hm hk pre y

/-- Of a marker `t ++ t'` that begins behind `s₁`, the piece `s₁ ++ t` is copied and no word begins
in the rest of it. -/
structure Missed (m : Marker) (s₁ t t' rest : List Char) : Prop where
  head : m.Head (t ++ t')
  ne : t ≠ []
  boundary (o : List Char) : Boundary o → Boundary (o ++ s₁)
  unmasked : ¬ Masked rest

theorem takeWhile_blank_append {h z : List Char} (hh : Blank h)
    (hz : ∀ c ∈ z.head?, isBlank c = false) : (h ++ z).takeWhile isBlank = h := by
  rw [List.takeWhile_append_of_pos hh]
  cases z with
  | nil => simp
  | cons c z => simp [hz c rfl]

theorem bearerMove_missed {k x rest : List Char} (hx : Marker.bearer.Tail x)
    (hq : rest.head?.any isQuote = true) (pre : List Char) :
    bearerMove (pre ++ (k ++ (x ++ rest))) (len (pre ++ k)) =
    some (.copy (len (pre ++ (k ++ x)))) := by
  obtain ⟨c, h, rfl, hc, hh⟩ := hx
  obtain ⟨q, r, rfl⟩ : ∃ q r, rest = q :: r := by
    cases rest with
    | nil => cases hq
    | cons q r => exact ⟨q, r, rfl⟩
  have hnext := nextCharAt_append (pre ++ k) (c :: (h ++ q :: r))
  have hskip := skipHorizontalWhitespace_append (pre ++ k ++ [c]) (h ++ q :: r)
  have hend := secretValueEnd_append (pre ++ k ++ [c] ++ h) (q :: r)
  have hblank : ∀ d ∈ (q :: r).head?, isBlank d = false := by
    rintro d ⟨⟩
    refine eq_false_of_ne_true fun hb => ?_
    rw [List.head?_cons, Option.any_some, isQuote_of_isBlank hb] at hq
    cases hq
  have hvalue : ((q :: r).takeWhile fun d => !isValueEnd d) = [] :=
    List.takeWhile_cons_of_neg (by rw [isValueEnd_of_isQuote hq]; exact Bool.false_ne_true)
  rw [takeWhile_blank_append hh hblank] at hskip
  rw [hvalue, List.append_nil] at hend
  simp only [List.append_assoc, List.cons_append, List.nil_append] at hnext hskip hend ⊢
  unfold bearerMove
  rw [hnext, Option.bind_eq_bind, Option.bind_some, List.head?_cons, Option.map_some,
    Option.elim_some, if_pos hc, hskip,
    Option.bind_eq_bind, Option.bind_some, hend, Option.bind_some, Move.ofRange, if_pos rfl]
  rfl

theorem assignmentMove_missed {k g s rest : List Char} {c : Char} (hg : Gap g)
    (hc : isKeyChar c = true) (pre : List Char) :
    assignmentMove (pre ++ (k ++ (g ++ c :: (s ++ rest)))) (len (pre ++ k)) =
      some (.copy (len (pre ++ (k ++ (g ++ [c]))))) := by
  have hend := isValueEnd_of_isKeyChar hc
  have hblank : isBlank c = false := eq_false_of_ne_true fun h => by
    rw [isValueEnd_of_isBlank h] at hend
    cases hend
  have hquote : isQuote c = false := eq_false_of_ne_true fun h => by
    rw [isValueEnd_of_isQuote h] at hend
    cases hend
  have hsep : c ≠ '=' ∧ c ≠ ':' := by
    constructor <;> rintro rfl <;> revert hc <;> decide
  rw [assignmentMove_append (afterGap_append hg hblank hquote), List.head?_cons, Option.map_some,
    Option.elim_some, if_pos hsep]

/-- Where a marker is missed, the pass goes on behind a piece that it begins in. -/
theorem Marker.Misses.follow (hm : m.Wordy) {k y : List Char}
    (hk : Text.toAsciiLowercase k = m.word) (h : m.Misses y) (pre : List Char) :
    ∃ s z s₁ t t' rest, y = s ++ z ∧ k ++ s = s₁ ++ t ∧ z = t' ++ rest ∧ Missed m s₁ t t' rest ∧
      m.follow (pre ++ (k ++ y)) (len (pre ++ k)) = some (.copy (len (pre ++ (k ++ s)))) := by
  cases m with
  | bearer =>
    obtain ⟨x, rest, rfl, hx, hq, hrest⟩ := h
    refine ⟨x, rest, [], k ++ x, [], rest, rfl, rfl, rfl,
      ⟨⟨k, x, List.append_nil _, hk, hx⟩, ?_, fun o ho => ?_, hrest⟩, bearerMove_missed hx hq pre⟩
    · exact List.append_ne_nil_of_left_ne_nil (hm.ne_nil hk) _
    · rwa [List.append_nil]
  | key word =>
    obtain ⟨g, s, rest, rfl, hg, hne, hs, hrest⟩ := h
    obtain ⟨c, s, rfl, hc⟩ := head_isKeyChar hm hs
    refine ⟨g ++ [c], s ++ rest, k ++ g, [c], s, rest, by simp, by simp, rfl,
      ⟨hs, List.cons_ne_nil _ _, fun o _ d hd => ?_, hrest⟩, assignmentMove_missed hg hc pre⟩
    rw [← List.append_assoc, List.getLast?_append_of_ne_nil _ hne] at hd
    exact not_isKeyChar_of_isTailChar (hg.isTailChar (List.mem_of_getLast? hd))
  | flag word => exact h.elim

/-- No word begins in a marker behind its first character. -/
theorem Missed.no_word (hm : m.Wordy) {s₁ t t' rest : List Char} (h : Missed m s₁ t t' rest)
    {k x y : List Char} (hk : Text.toAsciiLowercase k = m.word) (heq : t' ++ rest = x ++ (k ++ y)) :
    ∃ x', x = t' ++ x' ∧ rest = x' ++ (k ++ y) := by
  rcases List.append_eq_append_iff.1 heq with ⟨x', rfl, hrest⟩ | ⟨c, rfl, hrest⟩
  · exact ⟨x', rfl, hrest⟩
  obtain ⟨e, k, rfl⟩ := List.exists_cons_of_ne_nil (hm.ne_nil hk)
  cases c with
  | nil => exact ⟨[], by rw [List.append_nil, List.append_nil], hrest.symm⟩
  | cons e' c =>
    exfalso
    obtain ⟨rfl, -⟩ := List.cons.inj hrest
    obtain ⟨k', tl, heq', hk', htl⟩ := h.head
    have hlen : k'.length = (e :: k).length := by
      have := congrArg List.length (hk'.trans hk.symm)
      simpa only [Text.toAsciiLowercase, List.length_map] using this
    rw [← List.append_assoc] at heq'
    rcases List.append_eq_append_iff.1 heq' with ⟨a, rfl, ha⟩ | ⟨a, -, rfl⟩
    · -- the word would have to reach over the beginning of what follows the marker's own word
      rw [ha, List.append_assoc] at hrest
      obtain ⟨d, tl, rfl⟩ := List.exists_cons_of_ne_nil htl.ne_nil
      have hpos := List.length_pos_iff.2 h.ne
      simp only [List.length_append] at hlen
      rcases List.append_eq_append_iff.1 hrest with ⟨b, rfl, -⟩ | ⟨b, hb, htail⟩
      · rw [List.length_append] at hlen
        omega
      · cases b with
        | nil =>
          rw [List.append_nil] at hb
          rw [hb] at hlen
          omega
        | cons d' b =>
          obtain ⟨rfl, -⟩ := List.cons.inj htail
          have hkey :=
            hm.isKeyChar hk (c := d) (by rw [hb]; exact List.mem_append_right _ List.mem_cons_self)
          rw [not_isKeyChar_of_isTailChar (htl.isTailChar List.mem_cons_self)] at hkey
          cases hkey
    · have hkey := hm.isKeyChar hk List.mem_cons_self
      rw [not_isKeyChar_of_isTailChar (htl.isTailChar (List.mem_append_right _ List.mem_cons_self))]
        at hkey
      cases hkey

/-- Whatever follows the next word, a value that begins before it does not become `[redacted]`. -/
theorem masked_congr (hm : m.Wordy) {k x y z : List Char} (hk : Text.toAsciiLowercase k = m.word)
    (h : Masked (x ++ (k ++ z))) : Masked (x ++ (k ++ y)) := by
  obtain ⟨e, k, rfl⟩ := List.exists_cons_of_ne_nil (hm.ne_nil hk)
  have hkey {d : Char} (hd : d ∈ e :: k) : isValueEnd d = false :=
    isValueEnd_of_isKeyChar (hm.isKeyChar hk hd)
  have hnoquote {d : Char} (hd : d ∈ e :: k) : isQuote d = false := eq_false_of_ne_true fun h => by
    have hend := hkey hd
    rw [isValueEnd_of_isQuote h] at hend
    cases hend
  cases x with
  | nil =>
    rw [List.nil_append, List.cons_append, masked_cons (hnoquote List.mem_cons_self),
      hkey List.mem_cons_self] at h
    cases h
  | cons c x =>
    rw [List.cons_append] at h ⊢
    by_cases hc : isQuote c = true
    · rw [masked_quote hc] at h ⊢
      by_cases hmem : c ∈ x
      · obtain ⟨x₁, x₂, rfl⟩ := List.append_of_mem hmem
        rw [List.append_assoc, List.cons_append, List.takeWhile_append] at h ⊢
        simpa using h
      · -- the value would contain the word
        exfalso
        have hx : ∀ d ∈ x, decide (d ≠ c) = true :=
          fun d hd => decide_eq_true fun hdc => hmem (hdc ▸ hd)
        have hk' : ∀ d ∈ e :: k, decide (d ≠ c) = true := fun d hd => decide_eq_true fun hdc => by
          have hno := hnoquote hd
          rw [hdc, hc] at hno
          cases hno
        rw [List.takeWhile_append_of_pos hx, List.takeWhile_append_of_pos hk'] at h
        rcases h with h | h
        · have hnil := (List.append_eq_nil_iff.1 (List.append_eq_nil_iff.1 h).2).1
          cases hnil
        · refine hm.apart ⟨Text.toAsciiLowercase x, Text.toAsciiLowercase (z.takeWhile (· ≠ c)), ?_⟩
          have hlower : Text.toAsciiLowercase redacted = redacted := by decide
          rw [← hk, List.append_assoc, ← toAsciiLowercase_append, ← toAsciiLowercase_append,
            ← hlower]
          exact congrArg Text.toAsciiLowercase h
    · rw [masked_cons (eq_false_of_ne_true hc)] at h ⊢
      exact h

end LogTail

end Solo
