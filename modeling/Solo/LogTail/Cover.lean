import Mathlib.Logic.Relation
import Solo.LogTail.Sanitize
import Solo.Lib.Slug

/-!
# Masked values

What a sanitized line is: after every marker that stands at a key boundary there is no value but
`[redacted]`. A pass covers one value after another (`Step`), and what was masked before stays so: a
marker does not reach into `[redacted]`, and what stands right before a value that is covered ends
with a separator, a blank or a quote.
-/

namespace Solo

namespace LogTail

/-! ### Markers and values -/

inductive Marker where
  | bearer
  | key (word : List Char)
  | flag (word : List Char)

def Marker.word : Marker → List Char
  | bearer => "bearer".toList
  | key word => word
  | flag word => word

def markers : List Marker := .bearer :: (keys.map .key ++ flags.map .flag)

def Blank (s : List Char) : Prop := ∀ c ∈ s, isBlank c = true

/-- Blanks with at most one quote among them. -/
def Gap (s : List Char) : Prop :=
  Blank s ∨ ∃ s₁ q s₂, s = s₁ ++ q :: s₂ ∧ isQuote q = true ∧ Blank s₁ ∧ Blank s₂

/-- What stands between a marker and its value, up to a quote. -/
def Marker.Tail : Marker → List Char → Prop
  | bearer, s => ∃ c h, s = c :: h ∧ Text.isWhitespace c = true ∧ Blank h
  | key _, s => ∃ g sep h, s = g ++ sep :: h ∧ Gap g ∧ (sep = '=' ∨ sep = ':') ∧ Blank h
  | flag _, s => ∃ c h, s = c :: h ∧ (c = '=' ∨ Text.isWhitespace c = true) ∧ Blank h

/-- A marker, in any case of its letters, with what stands between it and its value. -/
def Marker.Head (m : Marker) (s : List Char) : Prop :=
  ∃ k x, s = k ++ x ∧ Text.toAsciiLowercase k = m.word ∧ m.Tail x

def Boundary (pre : List Char) : Prop := ∀ c ∈ pre.getLast?, isKeyChar c = false

/-- A value: up to the closing quote, or else to the first character that ends one. -/
def value : List Char → List Char
  | [] => []
  | c :: rest => if isQuote c then rest.takeWhile (· ≠ c) else (c :: rest).takeWhile fun d =>
    !isValueEnd d

/-- There is no value but `[redacted]`. Without quotes `[redacted]` is no value itself, as a bracket
ends one. -/
def Masked (rest : List Char) : Prop := value rest = [] ∨ value rest = redacted

def AllMasked (L : List Char → Prop) (text : List Char) : Prop :=
  ∀ pre s rest, text = pre ++ s ++ rest → Boundary pre → L s → Masked rest

def Sanitized (text : List Char) : Prop := ∀ m ∈ markers, AllMasked m.Head text

/-! ### Characters -/

theorem isKeyChar_toNat {c : Char} (h : isKeyChar c = true) : c.toNat < 128 := by
  simp only [isKeyChar, Bool.or_eq_true, decide_eq_true_eq] at h
  rcases h with (h | rfl) | rfl
  · refine Text.isAlphanum_toNat ?_
    rwa [Char.isAlphanum, Text.isAlpha_eq, Bool.or_eq_true, Bool.or_eq_true]
  · decide
  · decide

theorem isValueEnd_of_isKeyChar {c : Char} (h : isKeyChar c = true) : isValueEnd c = false := by
  have hall :=
    Text.forall_ascii (p := fun c => !isKeyChar c || !isValueEnd c) (by decide +kernel)
    (isKeyChar_toNat h)
  simpa [h] using hall

theorem isKeyChar_of_toLower {c : Char} (h : isKeyChar c.toLower = true) : isKeyChar c = true := by
  by_cases hc : c.isAlphanum = true
  · have hall :=
      Text.forall_ascii (p := fun c => !isKeyChar c.toLower || isKeyChar c) (by decide +kernel)
      (Text.isAlphanum_toNat hc)
    simpa [h] using hall
  · rwa [Text.toLower_of_not_isAlphanum (eq_false_of_ne_true hc)] at h

theorem isValueEnd_of_isBlank {c : Char} (h : isBlank c = true) : isValueEnd c = true := by
  simp only [isBlank, Bool.or_eq_true, decide_eq_true_eq] at h
  rcases h with rfl | rfl <;> decide

theorem isValueEnd_of_isQuote {c : Char} (h : isQuote c = true) : isValueEnd c = true := by
  simp only [isQuote, Bool.or_eq_true, decide_eq_true_eq] at h
  rcases h with rfl | rfl <;> decide

theorem isQuote_of_isBlank {c : Char} (h : isBlank c = true) : isQuote c = false := by
  simp only [isBlank, Bool.or_eq_true, decide_eq_true_eq] at h
  rcases h with rfl | rfl <;> decide

theorem isBlank_of_isQuote {c : Char} (h : isQuote c = true) : isBlank c = false :=
  eq_false_of_ne_true fun hb => by
    rw [isQuote_of_isBlank hb] at h
    cases h

/-! ### Masked values -/

theorem masked_nil : Masked [] := .inl rfl

theorem masked_of_isValueEnd {c : Char} (hq : isQuote c = false) (h : isValueEnd c = true)
    (rest : List Char) : Masked (c :: rest) := by
  left
  rw [value, hq, List.takeWhile_cons, h]
  rfl

theorem masked_redacted (w : List Char) : Masked (redacted ++ w) :=
  masked_of_isValueEnd (by decide) (by decide) _

theorem masked_cons {c : Char} (hq : isQuote c = false) {rest : List Char} : Masked (c :: rest) ↔
    isValueEnd c = true := by
  refine ⟨fun h => ?_, fun h => masked_of_isValueEnd hq h rest⟩
  by_contra hc
  have hvalue : value (c :: rest) = c :: rest.takeWhile fun d => !isValueEnd d := by
    rw [value, hq, List.takeWhile_cons, eq_false_of_ne_true hc]
    rfl
  rw [Masked, hvalue] at h
  rcases h with h | h
  · cases h
  · obtain ⟨rfl, -⟩ := List.cons.inj (h : _ = '[' :: _)
    exact hc (by decide)

theorem masked_quote {q : Char} (hq : isQuote q = true) {rest : List Char} :
    Masked (q :: rest) ↔ rest.takeWhile (· ≠ q) = [] ∨ rest.takeWhile (· ≠ q) = redacted := by
  rw [Masked, value, if_pos hq]

theorem masked_of_blank {h z rest : List Char} (hh : Blank h) (heq : z = h ++ rest)
    (hz : Masked (z.dropWhile isBlank)) : Masked rest := by
  cases rest with
  | nil => exact masked_nil
  | cons c rest =>
    by_cases hc : isBlank c = true
    · exact masked_of_isValueEnd (isQuote_of_isBlank hc) (isValueEnd_of_isBlank hc) rest
    · rwa [heq, List.dropWhile_append_of_pos hh, List.dropWhile_cons_of_neg hc] at hz

/-! ### Covering a value -/

/-- A value `v` between `u` and `w` as it is covered. -/
structure Cover (u v w : List Char) : Prop where
  last : ∃ c ∈ u.getLast?, c ∉ redacted ∧ (isQuote c = true → c ∉ v ∧ ∀ d ∈ w.head?, d = c)
  next : ∀ d ∈ w.head?, isValueEnd d = true

inductive Step : List Char → List Char → Prop
  | cover {u v w : List Char} (h : Cover u v w) : Step (u ++ (v ++ w)) (u ++ (redacted ++ w))

/-- What stands before a value begins like a marker and does not reach into `[redacted]`. -/
structure HeadLike (L : List Char → Prop) : Prop where
  first {s : List Char} : L s → ∃ c ∈ s.head?, isValueEnd c = false
  bracket {s : List Char} : L s → ']' ∉ s
  last {s : List Char} : L s → ∃ c ∈ s.getLast?, c ∉ redacted

theorem Cover.masked {u v w x r : List Char} (h : Cover u v w) (hu : u = x ++ r)
    (hr : Masked (r ++ (v ++ w))) : Masked (r ++ (redacted ++ w)) := by
  cases r with
  | nil => exact masked_redacted w
  | cons c r =>
    by_cases hc : isQuote c = true
    · obtain ⟨e, he, hred, hquote⟩ := h.last
      rw [List.cons_append, masked_quote hc] at hr ⊢
      cases r using List.reverseRecOn with
      | nil =>
        rw [hu, List.getLast?_concat] at he
        obtain rfl := Option.mem_some.1 he
        -- the quote right before the value: what covers it has none, and the closing quote follows
        have hw : w.takeWhile (· ≠ c) = [] := by
          cases w with
          | nil => rfl
          | cons d w =>
            obtain rfl := (hquote hc).2 d rfl
            exact List.takeWhile_cons_of_neg (by simp)
        right
        rw [List.nil_append, List.takeWhile_append_of_pos, hw, List.append_nil]
        intro d hd
        exact decide_eq_true fun hdc => hred (hdc ▸ hd)
      | append_singleton r d _ =>
        rw [hu, ← List.cons_append, ← List.append_assoc, List.getLast?_concat] at he
        obtain rfl := Option.mem_some.1 he
        rw [List.takeWhile_append] at hr ⊢
        split at hr
        · rcases hr with hr | hr
          · simp at hr
          · exact absurd
              (hr ▸ List.mem_append_left _ (List.mem_append_right _ (List.mem_singleton.2 rfl)))
              hred
        · next hlen => rwa [if_neg hlen]
    · rw [List.cons_append, masked_cons (eq_false_of_ne_true hc)] at hr ⊢
      exact hr

/-- A marker lies on one side of `[redacted]`. -/
theorem Cover.head_cases {L : List Char → Prop} (hL : HeadLike L) {u v w : List Char}
    (h : Cover u v w)
    {pre s rest : List Char} (hs : L s) (heq : u ++ (redacted ++ w) = pre ++ s ++ rest) :
    (∃ r, u = pre ++ s ++ r ∧ rest = r ++ (redacted ++ w)) ∨
      ∃ p, p ≠ [] ∧ pre = u ++ redacted ++ p ∧ w = p ++ s ++ rest := by
  obtain ⟨c, hc, hend⟩ := hL.first hs
  obtain ⟨e, he, hred⟩ := hL.last hs
  rw [← List.append_assoc] at heq
  rcases List.append_eq_append_iff.1 heq with ⟨a, ha, rfl⟩ | ⟨a, ha, rfl⟩
  · -- the head ends after the bracket
    right
    have hside : ∃ b, pre = u ++ redacted ++ b ∧ a = b ++ s := by
      rcases List.append_eq_append_iff.1 ha with ⟨b, hb, hsb⟩ | hb
      · cases b using List.reverseRecOn with
        | nil => exact ⟨[], by rw [List.append_nil] at hb ⊢; exact hb.symm, by rw [hsb]; rfl⟩
        | append_singleton b d _ =>
          have hlast := congrArg List.getLast? hb
          rw [← List.append_assoc, List.getLast?_concat, List.getLast?_append] at hlast
          obtain rfl : ']' = d := Option.some.inj hlast
          refine absurd ?_ (hL.bracket hs)
          rw [hsb]
          exact List.mem_append_left _ (List.mem_append_right _ (List.mem_singleton.2 rfl))
      · exact hb
    obtain ⟨b, rfl, rfl⟩ := hside
    refine ⟨b, ?_, rfl, rfl⟩
    rintro rfl
    -- what follows the value is not the beginning of a marker
    have hnext :=
      h.next c (by rw [List.nil_append, List.head?_append]; exact Option.mem_def.2 (by rw [hc]; rfl))
    rw [hend] at hnext
    cases hnext
  · -- the head ends before the bracket
    left
    rcases List.append_eq_append_iff.1 ha with ⟨b, hb, hred'⟩ | ⟨b, rfl, rfl⟩
    · cases b using List.reverseRecOn with
      | nil => exact ⟨[], by rw [List.append_nil] at hb ⊢; exact hb.symm, by rw [hred']; rfl⟩
      | append_singleton b d _ =>
        have hlast := congrArg List.getLast? hb
        rw [← List.append_assoc, List.getLast?_concat, List.getLast?_append, he] at hlast
        obtain rfl : e = d := Option.some.inj hlast
        refine absurd ?_ hred
        rw [hred']
        exact List.mem_append_left _ (List.mem_append_right _ (List.mem_singleton.2 rfl))
    · exact ⟨b, rfl, by rw [List.append_assoc]⟩

/-- Where a marker stands after a value is covered, it stood before. -/
theorem Cover.old_head {L : List Char → Prop} (hL : HeadLike L) {u v w : List Char}
    (h : Cover u v w)
    {pre s rest : List Char} (hs : L s) (heq : u ++ (redacted ++ w) = pre ++ s ++ rest)
    (hpre : Boundary pre) :
    ∃ pre' r, u ++ (v ++ w) = pre' ++ s ++ r ∧ Boundary pre' ∧ (Masked r → Masked rest) := by
  rcases h.head_cases hL hs heq with ⟨r, rfl, rfl⟩ | ⟨p, hp, rfl, rfl⟩
  · exact ⟨pre, r ++ (v ++ w), by simp only [List.append_assoc], hpre, h.masked rfl⟩
  · refine ⟨u ++ v ++ p, rest, by simp only [List.append_assoc], ?_, id⟩
    unfold Boundary at hpre ⊢
    rwa [List.getLast?_append_of_ne_nil _ hp] at hpre ⊢

theorem Step.allMasked {L : List Char → Prop} (hL : HeadLike L) {t t' : List Char} (h : Step t t')
    (ht : AllMasked L t) : AllMasked L t' := by
  obtain ⟨hcover⟩ := h
  intro pre s rest heq hpre hs
  obtain ⟨pre', r, hold, hpre', hmasked⟩ := hcover.old_head hL hs heq hpre
  exact hmasked (ht pre' s r hold hpre' hs)

/-! ### The markers of the sanitizer -/

/-- The words of the markers are made of the characters of keys, and `[redacted]` has none of
them. -/
structure Marker.Wordy (m : Marker) : Prop where
  all : ∀ c ∈ m.word, isKeyChar c = true
  ne : m.word ≠ []
  apart : ¬ m.word <:+: redacted

theorem wordy_of_mem {m : Marker} (hm : m ∈ markers) : m.Wordy := by
  have hall : markers.all fun m => m.word.all isKeyChar && !m.word.isEmpty &&
      !decide (m.word <:+: redacted) := by
    decide
  have h := List.all_eq_true.1 hall m hm
  rw [Bool.and_eq_true, Bool.and_eq_true, List.all_eq_true] at h
  exact ⟨h.1.1, by simpa using h.1.2, by simpa using h.2⟩

variable {m : Marker}

theorem Marker.Wordy.isKeyChar (hm : m.Wordy) {k : List Char}
    (hk : Text.toAsciiLowercase k = m.word) {c : Char} (hc : c ∈ k) : isKeyChar c = true :=
  isKeyChar_of_toLower (hm.all _ (hk ▸ List.mem_map_of_mem hc))

theorem Marker.Wordy.ne_nil (hm : m.Wordy) {k : List Char} (hk : Text.toAsciiLowercase k = m.word) :
    k ≠ [] := by
  rintro rfl
  exact hm.ne hk.symm

/-- What stands between a marker and its value: a separator, white space or a quote. -/
def isTailChar (c : Char) : Bool :=
  isBlank c || isQuote c || c = '=' || c = ':' || Text.isWhitespace c

theorem not_isKeyChar_of_isTailChar {c : Char} (h : isTailChar c = true) : isKeyChar c = false := by
  by_contra hc
  have hall := Text.forall_ascii (p := fun c => !isKeyChar c || !isTailChar c) (by decide +kernel)
    (isKeyChar_toNat (eq_true_of_ne_false hc))
  rw [eq_true_of_ne_false hc, h] at hall
  cases hall

theorem not_mem_redacted_of_isTailChar {c : Char} (h : isTailChar c = true) : c ∉ redacted := by
  have hall : redacted.all fun c => !isTailChar c := by decide
  intro hc
  have hno := List.all_eq_true.1 hall c hc
  rw [h] at hno
  cases hno

theorem Blank.isTailChar {s : List Char} (h : Blank s) {c : Char} (hc : c ∈ s) :
    isTailChar c = true := by
  rw [LogTail.isTailChar, h c hc]
  rfl

theorem Gap.isTailChar {s : List Char} (h : Gap s) {c : Char} (hc : c ∈ s) :
    isTailChar c = true := by
  rcases h with h | ⟨s₁, q, s₂, rfl, hq, h₁, h₂⟩
  · exact h.isTailChar hc
  · rcases List.mem_append.1 hc with hc | hc
    · exact h₁.isTailChar hc
    rcases List.mem_cons.1 hc with rfl | hc
    · rw [LogTail.isTailChar, hq, Bool.or_true]
      rfl
    · exact h₂.isTailChar hc

theorem Marker.Tail.isTailChar {x : List Char} (h : m.Tail x) {c : Char} (hc : c ∈ x) :
    isTailChar c = true := by
  cases m with
  | bearer =>
    obtain ⟨d, h, rfl, hd, hblank⟩ := h
    rcases List.mem_cons.1 hc with rfl | hc
    · rw [LogTail.isTailChar, hd, Bool.or_true]
    · exact hblank.isTailChar hc
  | key word =>
    obtain ⟨g, sep, h, rfl, hg, hsep, hblank⟩ := h
    rcases List.mem_append.1 hc with hc | hc
    · exact hg.isTailChar hc
    rcases List.mem_cons.1 hc with rfl | hc
    · rcases hsep with rfl | rfl <;> decide
    · exact hblank.isTailChar hc
  | flag word =>
    obtain ⟨d, h, rfl, hd, hblank⟩ := h
    rcases List.mem_cons.1 hc with rfl | hc
    · rcases hd with rfl | hd
      · decide
      · rw [LogTail.isTailChar, hd, Bool.or_true]
    · exact hblank.isTailChar hc

theorem Marker.Tail.ne_nil {x : List Char} (h : m.Tail x) : x ≠ [] := by
  rintro rfl
  cases m with
  | bearer =>
    obtain ⟨d, h, hnil, -⟩ := h
    cases hnil
  | key word =>
    obtain ⟨g, sep, h, hnil, -⟩ := h
    cases g <;> cases hnil
  | flag word =>
    obtain ⟨d, h, hnil, -⟩ := h
    cases hnil

theorem headLike_head (hm : m.Wordy) : HeadLike m.Head where
  first {s} hs := by
    obtain ⟨k, x, rfl, hk, -⟩ := hs
    obtain ⟨c, k, rfl⟩ := List.exists_cons_of_ne_nil (hm.ne_nil hk)
    exact ⟨c, rfl, isValueEnd_of_isKeyChar (hm.isKeyChar hk List.mem_cons_self)⟩
  bracket {s} hs hmem := by
    obtain ⟨k, x, rfl, hk, hx⟩ := hs
    have hno : isKeyChar ']' = true ∨ isTailChar ']' = true :=
      (List.mem_append.1 hmem).imp (hm.isKeyChar hk) hx.isTailChar
    revert hno
    decide
  last {s} hs := by
    obtain ⟨k, x, rfl, -, hx⟩ := hs
    obtain ⟨c, hc⟩ := Option.isSome_iff_exists.1 (List.getLast?_isSome.2 hx.ne_nil)
    refine ⟨c, ?_, not_mem_redacted_of_isTailChar (hx.isTailChar (List.mem_of_getLast? hc))⟩
    rw [List.getLast?_append, hc]
    rfl

/-! ### What a pass misses -/

/-- What the pass of a marker does behind its word. -/
def Marker.follow : Marker → List Char → ℕ → Option Move
  | bearer => bearerMove
  | key _ => assignmentMove
  | flag _ => flagMove

/-- The cursor of the pass goes from one offset to the next. -/
def Marker.Moves (m : Marker) (input : List Char) (cursor next : ℕ) : Prop :=
  nextMove input m.word (m.follow input) cursor = some (.copy next) ∨
    ∃ start, nextMove input m.word (m.follow input) cursor = some (.mask start next)

/-- The pass comes upon its word `k` at a key boundary: from one of its cursors on, this is the
first occurrence. -/
def Marker.Meets (m : Marker) (input pre k y : List Char) : Prop :=
  input = pre ++ (k ++ y) ∧ Text.toAsciiLowercase k = m.word ∧ Boundary pre ∧
    ∃ a x, pre = a ++ x ∧ Relation.ReflTransGen (m.Moves input) 0 (Bytes.len a) ∧
      findStr m.word (Text.toAsciiLowercase (x ++ (k ++ y))) = some (Bytes.len x)

/-- What a pass misses behind its word: after `bearer` a quoted value, and after a key a second
marker of that key, as its first character is stepped over where a separator was looked for. -/
def Marker.Misses : Marker → List Char → Prop
  | bearer, y => ∃ x rest, y = x ++ rest ∧ bearer.Tail x ∧ rest.head?.any isQuote = true ∧
    ¬ Masked rest
  | key word, y => ∃ g s rest, y = g ++ (s ++ rest) ∧ Gap g ∧ g ≠ [] ∧ (key word).Head s ∧
    ¬ Masked rest
  | flag _, _ => False

/-- The pass of the marker misses nothing. -/
def Marker.Clear (m : Marker) (input : List Char) : Prop :=
  ∀ pre k y, m.Meets input pre k y → ¬ m.Misses y

end LogTail

end Solo
