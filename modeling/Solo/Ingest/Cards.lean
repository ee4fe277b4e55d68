import Solo.Ingest.Redaction
import Solo.Lib.Stretch

/-!
# Card numbers (`redaction/builtins.rs`, the credit-card pattern)

The pattern takes candidates from left to right, each as long as it can be, and replaces those that
pass the Luhn check. A candidate that fails is left as a whole, with the cards in it, so a text
keeps a card exactly if some card meets no candidate that passes.
-/

namespace Solo

open Letters Stretch

/-! ### The patterns with words -/

section

variable (isWord : Char → Bool)

/-- `\b` between what stands before and what follows. -/
def boundary (before after : Option Char) : Bool := before.any isWord != after.any isWord

/-- `find_iter` of a regex that begins with `\b`; `length` matches what follows it. The first
argument is what is left of the match that was found. -/
def findFrom (length : List Char → Option ℕ) : ℕ → Option Char → ℕ → List Char → List (ℕ × ℕ)
  | _, _, _, [] => []
  | skip + 1, _, pos, c :: cs => findFrom length skip (some c) (pos + 1) cs
  | 0, before, pos, c :: cs =>
    match if boundary isWord before (some c) then length (c :: cs) else none with
    | some n => (pos, pos + n) :: findFrom length (n - 1) (some c) (pos + 1) cs
    | none => findFrom length 0 (some c) (pos + 1) cs

def findIter (length : List Char → Option ℕ) (cs : List Char) : List (ℕ × ℕ) :=
  findFrom isWord length 0 none 0 cs

/-- A regex without groups; `$` stands in none of the replacements here. -/
def wordRegex (length : List Char → Option ℕ) : Regex where
  capturesIter cs := (findIter isWord length cs).map fun r => ⟨r.1, r.2, []⟩
  template replacement := [.literal replacement.toList]

def isSep (c : Char) : Bool := c = ' ' || c = '-'

/-- `[0-9]\b` at the front of a text. -/
def lastDigit : List Char → Option ℕ
  | [] => none
  | d :: cs => if d.isDigit && boundary isWord (some d) cs.head? then some 1 else none

/-- `(?:[0-9][ \-]?){min,max}[0-9]\b` at the front of a text, as much as there is of it. -/
def cardLength : ℕ → ℕ → List Char → Option ℕ
  | 0, min, cs => if min = 0 then lastDigit isWord cs else none
  | max + 1, min, cs =>
    let more :=
      match cs with
      | d :: c :: cs =>
        if d.isDigit then
          (if isSep c then (cardLength max (min - 1) cs).map (· + 2) else none).or
            ((cardLength max (min - 1) (c :: cs)).map (· + 1))
        else none
      | _ => none
    more.or (if min = 0 then lastDigit isWord cs else none)

/-- As many as it can be of `least` up to `most` characters of a class, then `\b`. -/
def bodyLength (isBody : Char → Bool) (least most : ℕ) (cs : List Char) : Option ℕ :=
  (List.range (most + 1)).reverse.find? fun n =>
    least ≤ n && n ≤ cs.length && (cs.take n).all isBody &&
      boundary isWord (cs.take n).getLast? cs[n]?

def upperOrDigit (c : Char) : Bool := c.isUpper || c.isDigit

def builtin (name : String) (length : List Char → Option ℕ) (kind : RedactionPatternKind) :
    RedactionPattern where
  name
  regex := wordRegex isWord length
  replacement := "[REDACTED:" ++ name ++ "]"
  enabled := true
  kind

def creditCard : RedactionPattern :=
  builtin isWord "credit_card" (cardLength isWord 18 12) .creditCardWithLuhn

def awsAccessKey : RedactionPattern :=
  builtin isWord "aws_access_key" (fun cs =>
    if "AKIA".toList.isPrefixOf cs then (bodyLength isWord upperOrDigit 16 16 (cs.drop 4)).map
      (· + 4) else none) .literal

def githubPat : RedactionPattern :=
  builtin isWord "github_pat" (fun cs =>
    match cs with
    | 'g' :: 'h' :: k :: '_' :: cs =>
      if "pousr".toList.contains k then (bodyLength isWord Char.isAlphanum 36 255 cs).map (· + 4)
        else none
    | _ => none) .literal

/-! ### Cards -/

/-- Digits with at most one space or dash between any two. -/
def spaced : List Char → Bool
  | [] => false
  | [d] => d.isDigit
  | d :: c :: cs => d.isDigit && if isSep c then spaced cs else spaced (c :: cs)

def Card (cs : List Char) : Prop := spaced cs = true ∧ luhnCheck cs = true

instance : DecidablePred Card := fun _ => inferInstanceAs (Decidable (_ ∧ _))

def HasCard (cs : List Char) : Prop := Has isWord Card cs

/-- What is known of `\w`. -/
structure WordClass : Prop where
  alphanum : ∀ c : Char, c.isAlphanum → isWord c = true
  underscore : isWord '_' = true
  opening : isWord '[' = false
  closing : isWord ']' = false

/-! ### What the patterns find -/

variable {isWord}

/-- What follows `\b` in a regex: a match begins with a word character and ends at a boundary. -/
def Words (isWord : Char → Bool) (length : List Char → Option ℕ) : Prop :=
  ∀ cs n, length cs = some n → 1 ≤ n ∧ n ≤ cs.length ∧ (∀ c ∈ cs.head?, isWord c = true) ∧
    Gap isWord cs n

theorem gap_of_boundary {d : Char} (hd : isWord d = true) {after : Option Char}
    (h : boundary isWord (some d) after = true) : ∀ c ∈ after, isWord c = false := by
  rintro c rfl
  rw [boundary, Option.any_some, Option.any_some, hd] at h
  cases hc : isWord c with
  | false => rfl
  | true => rw [hc] at h; cases h

theorem isWord_digit (hword : WordClass isWord) {c : Char} (h : c.isDigit = true) :
    isWord c = true :=
  hword.alphanum c (by rw [Char.isAlphanum, h, Bool.or_true])

theorem lastDigit_spec (hword : WordClass isWord) {cs : List Char} {n : ℕ}
    (h : lastDigit isWord cs = some n) :
    n = 1 ∧ 1 ≤ cs.length ∧ (∀ c ∈ cs.head?, c.isDigit = true) ∧ Gap isWord cs 1 := by
  cases cs with
  | nil => cases h
  | cons d cs =>
    rw [lastDigit] at h
    split_ifs at h with hd
    rw [Bool.and_eq_true] at hd
    obtain rfl := Option.some.inj h
    refine ⟨rfl, Nat.le_add_left 1 _, fun c hc => Option.some.inj hc ▸ hd.1, fun c hc => ?_⟩
    rw [List.getElem?_cons_succ, ← List.head?_eq_getElem?] at hc
    exact gap_of_boundary (isWord_digit hword hd.1) hd.2 c hc

theorem gap_cons {c : Char} {cs : List Char} {n : ℕ} (h : Gap isWord cs n) :
    Gap isWord (c :: cs) (n + 1) := by
  intro d hd
  rw [List.getElem?_cons_succ] at hd
  exact h d hd

/-- A match of the pattern: digits at its front, a boundary at its end. -/
def DigitsFirst (isWord : Char → Bool) (cs : List Char) (n : ℕ) : Prop :=
  1 ≤ n ∧ n ≤ cs.length ∧ (∀ c ∈ cs.head?, c.isDigit = true) ∧ Gap isWord cs n

theorem digitsFirst_last (hword : WordClass isWord) {min n : ℕ} {cs : List Char}
    (h : (if min = 0 then lastDigit isWord cs else none) = some n) : DigitsFirst isWord cs n := by
  split_ifs at h
  obtain ⟨rfl, hlen, hhead, hgap⟩ := lastDigit_spec hword h
  exact ⟨Nat.le_refl 1, hlen, hhead, hgap⟩

theorem DigitsFirst.cons {d c : Char} {cs : List Char} {n : ℕ} (hd : d.isDigit = true)
    (h : DigitsFirst isWord (c :: cs) n) : DigitsFirst isWord (d :: c :: cs) (n + 1) := by
  obtain ⟨hpos, hlen, -, hgap⟩ := h
  exact ⟨Nat.le_add_left 1 n, Nat.succ_le_succ hlen, fun x hx => Option.some.inj hx ▸ hd,
    gap_cons hgap⟩

theorem DigitsFirst.cons_cons {d c : Char} {cs : List Char} {n : ℕ} (hd : d.isDigit = true)
    (h : DigitsFirst isWord cs n) : DigitsFirst isWord (d :: c :: cs) (n + 2) := by
  obtain ⟨hpos, hlen, -, hgap⟩ := h
  exact ⟨Nat.le_add_left 1 (n + 1), Nat.succ_le_succ (Nat.succ_le_succ hlen),
    fun x hx => Option.some.inj hx ▸ hd, gap_cons (gap_cons hgap)⟩

theorem cardLength_spec (hword : WordClass isWord) {max min n : ℕ} {cs : List Char}
    (h : cardLength isWord max min cs = some n) : DigitsFirst isWord cs n := by
  induction max generalizing min n cs with
  | zero => exact digitsFirst_last hword h
  | succ max ih =>
    unfold cardLength at h
    rcases Option.or_eq_some_iff.1 h with hmore | ⟨-, h⟩
    · cases cs with
      | nil => cases hmore
      | cons d cs =>
        cases cs with
        | nil => cases hmore
        | cons c cs =>
          dsimp only at hmore
          split_ifs at hmore with hd hsep
          · rcases Option.or_eq_some_iff.1 hmore with hmore | ⟨-, hmore⟩
            · obtain ⟨m, hm, rfl⟩ := Option.map_eq_some_iff.1 hmore
              exact (ih hm).cons_cons hd
            · obtain ⟨m, hm, rfl⟩ := Option.map_eq_some_iff.1 hmore
              exact (ih hm).cons hd
          · rw [Option.none_or] at hmore
            obtain ⟨m, hm, rfl⟩ := Option.map_eq_some_iff.1 hmore
            exact (ih hm).cons hd
    · exact digitsFirst_last hword h

theorem words_cardLength (hword : WordClass isWord) (max min : ℕ) :
    Words isWord (cardLength isWord max min) := by
  intro cs n h
  obtain ⟨hpos, hlen, hhead, hgap⟩ := cardLength_spec hword h
  exact ⟨hpos, hlen, fun c hc => isWord_digit hword (hhead c hc), hgap⟩

/-! ### Ranges that are found -/

theorem getElem?_append_cons (pre cs : List Char) (i : ℕ) :
    (pre ++ cs)[pre.length + i]? = cs[i]? := by
  rw [List.getElem?_append_right (Nat.le_add_right _ _), Nat.add_sub_cancel_left]

/-- The matches come one after another, each at a boundary and with words in it. -/
theorem ranges_findFrom {length : List Char → Option ℕ} (hwords : Words isWord length)
    (pre cs : List Char) {skip : ℕ} (hskip : skip ≤ cs.length) :
    Ranges isWord (pre ++ cs) (pre.length + skip)
    (findFrom isWord length skip pre.getLast? pre.length cs) := by
  induction cs generalizing pre skip with
  | nil =>
    obtain rfl : skip = 0 := Nat.le_zero.1 hskip
    simp only [findFrom, Ranges, List.append_nil, Nat.add_zero, Nat.le_refl]
  | cons c cs ih =>
    have hnext (skip : ℕ) (hskip : skip ≤ cs.length) :
        Ranges isWord (pre ++ c :: cs) (pre.length + (skip + 1))
        (findFrom isWord length skip (some c) (pre.length + 1) cs) := by
      have hih := ih (pre ++ [c]) hskip
      rw [List.append_assoc, List.singleton_append, List.length_append, List.length_singleton,
        List.getLast?_concat] at hih
      exact (Nat.add_right_comm pre.length 1 skip ▸ hih : _)
    cases skip with
    | succ skip => exact hnext skip (Nat.le_of_succ_le_succ hskip)
    | zero =>
      rw [findFrom, Nat.add_zero]
      by_cases hboundary : boundary isWord pre.getLast? (some c) = true
      · rw [if_pos hboundary]
        cases hlength : length (c :: cs) with
        | none => exact (hnext 0 (Nat.zero_le _)).mono (Nat.le_add_right _ _)
        | some n =>
          obtain ⟨hpos, hle, hhead, hgap⟩ := hwords _ n hlength
          have hc : isWord c = true := hhead c rfl
          refine ⟨Nat.le_refl _, by omega, fun i hi => ?_, ?_, ?_⟩
          · intro d hd
            have hlast : pre.getLast? = some d := by
              rw [List.getLast?_eq_getElem?, ← hd, List.getElem?_append_left (by omega)]
              congr 1
              omega
            rw [boundary, hlast, Option.any_some, Option.any_some, hc] at hboundary
            cases hd' : isWord d with
            | false => rfl
            | true => rw [hd'] at hboundary; cases hboundary
          · intro d hd
            rw [getElem?_append_cons] at hd
            exact hgap d hd
          · have hrest := hnext (n - 1) (by rw [List.length_cons] at hle; omega)
            rw [Nat.sub_add_cancel hpos] at hrest
            exact hrest
      · rw [if_neg hboundary]
        exact (hnext 0 (Nat.zero_le _)).mono (Nat.le_add_right _ _)

theorem ranges_findIter {length : List Char → Option ℕ} (hwords : Words isWord length)
    (cs : List Char) :
    Ranges isWord cs 0 (findIter isWord length cs) := ranges_findFrom hwords [] cs (Nat.zero_le _)

/-- Each match is one at its place. -/
theorem length_of_mem_findFrom {length : List Char → Option ℕ} {skip : ℕ} {before : Option Char}
    {pos : ℕ} {cs : List Char} {r : ℕ × ℕ} (h : r ∈ findFrom isWord length skip before pos cs) :
    ∃ n, pos ≤ r.1 ∧ r.2 = r.1 + n ∧ length (cs.drop (r.1 - pos)) = some n := by
  induction cs generalizing skip before pos with
  | nil => rw [findFrom] at h; cases h
  | cons c cs ih =>
    have hnext {skip : ℕ} (h : r ∈ findFrom isWord length skip (some c) (pos + 1) cs) :
        ∃ n, pos ≤ r.1 ∧ r.2 = r.1 + n ∧ length ((c :: cs).drop (r.1 - pos)) = some n := by
      obtain ⟨n, hpos, hr, hlength⟩ := ih h
      have hplace : r.1 - pos = r.1 - (pos + 1) + 1 := by omega
      refine ⟨n, by omega, hr, ?_⟩
      rw [hplace, List.drop_succ_cons]
      exact hlength
    cases skip with
    | succ skip => exact hnext h
    | zero =>
      rw [findFrom] at h
      by_cases hboundary : boundary isWord before (some c) = true
      · rw [if_pos hboundary] at h
        cases hlength : length (c :: cs) with
        | none => rw [hlength] at h; exact hnext h
        | some n =>
          rw [hlength] at h
          rcases List.mem_cons.1 h with rfl | h
          · exact ⟨n, Nat.le_refl _, rfl, by rw [Nat.sub_self]; exact hlength⟩
          · exact hnext h
      · rw [if_neg hboundary] at h
        exact hnext h

/-! ### What a pattern leaves -/

theorem spaced_spec {cs : List Char} (h : spaced cs = true) : (∀ c ∈ cs.head?, c.isDigit = true) ∧
    (∀ c ∈ cs.getLast?, c.isDigit = true) ∧ ∀ c ∈ cs, (c.isDigit || isSep c) = true := by
  fun_induction spaced cs with
  | case1 => cases h
  | case2 d =>
    have hd : ∀ c ∈ [d], c.isDigit = true := fun c hc => List.mem_singleton.1 hc ▸ h
    exact ⟨fun c hc => Option.some.inj hc ▸ h, fun c hc => Option.some.inj hc ▸ h,
      fun c hc => by rw [hd c hc, Bool.true_or]⟩
  | case3 d c cs ih ih' =>
    rw [Bool.and_eq_true] at h
    obtain ⟨hd, hrest⟩ := h
    have hcons {l : List Char} (hall : ∀ c ∈ l, (c.isDigit || isSep c) = true) :
        ∀ x ∈ d :: l, (x.isDigit || isSep x) = true :=
      List.forall_mem_cons.2 ⟨by rw [hd, Bool.true_or], hall⟩
    refine ⟨fun x hx => Option.some.inj hx ▸ hd, ?_⟩
    rw [List.getLast?_cons_cons]
    split_ifs at hrest with hsep
    · obtain ⟨-, hlast, hall⟩ := ih hrest
      have hne : cs ≠ [] := by
        rintro rfl
        cases hrest
      refine ⟨fun x hx => hlast x ?_,
        hcons (List.forall_mem_cons.2 ⟨by rw [hsep, Bool.or_true], hall⟩)⟩
      obtain ⟨y, ys, rfl⟩ := List.exists_cons_of_ne_nil hne
      rw [List.getLast?_cons_cons] at hx
      exact hx
    · obtain ⟨-, hlast, hall⟩ := ih' hrest
      exact ⟨hlast, hcons hall⟩

theorem kind_card (hword : WordClass isWord) : Kind isWord Card fun c => c.isDigit || isSep c where
  head _ h c hc := isWord_digit hword ((spaced_spec h.1).1 c hc)
  last _ h c hc := isWord_digit hword ((spaced_spec h.1).2.1 c hc)
  chars _ h := (spaced_spec h.1).2.2

/-- What a built-in pattern puts in. -/
theorem apart_replacement (hword : WordClass isWord) {name : String}
    (hname : ∀ c ∈ name.toList, (c.isDigit || isSep c) = false) :
    Apart isWord (fun c => c.isDigit || isSep c) ("[REDACTED:" ++ name ++ "]").toList := by
  have htext : ("[REDACTED:" ++ name ++ "]").toList = "[REDACTED:".toList ++ name.toList ++
      [']'] := by
    rw [String.toList_append, String.toList_append]
    rfl
  rw [htext]
  refine ⟨List.append_ne_nil_of_right_ne_nil _ (List.cons_ne_nil _ _), fun c hc => ?_,
    fun c hc => ?_, fun c hc => ?_⟩
  · rcases List.mem_append.1 hc with hc | hc
    · rcases List.mem_append.1 hc with hc | hc
      · have hall : "[REDACTED:".toList.all (fun c => !(c.isDigit || isSep c)) = true := by decide
        exact Bool.not_eq_true' _ ▸ List.all_eq_true.1 hall c hc
      · exact hname c hc
    · exact List.mem_singleton.1 hc ▸ rfl
  · exact Option.some.inj hc ▸ hword.opening
  · rw [List.getLast?_append, List.getLast?_singleton, Option.some_or] at hc
    exact Option.some.inj hc ▸ hword.closing

/-- Where a card meets no range that is replaced, it is left, and no other card is. -/
theorem hasCard_splice (hword : WordClass isWord) {text new : List Char} {ranges : List (ℕ × ℕ)}
    (hranges : Ranges isWord text 0 ranges)
    (hnew : Apart isWord (fun c => c.isDigit || isSep c) new) :
    HasCard isWord (splice text 0 (ranges.map fun r => (r.1, r.2, new))) ↔
      ∃ a b, At isWord Card text a b ∧ ∀ r ∈ ranges, b ≤ r.1 ∨ r.2 ≤ a := by
  have hzero : ∀ i, i + 1 = 0 → Gap isWord text i := fun i hi => absurd hi (Nat.succ_ne_zero i)
  rw [HasCard, has_splice (kind_card hword) hnew, has_pieces (kind_card hword) hranges (.inl hzero)]
  constructor
  · rintro ⟨a, b, -, h⟩
    exact ⟨a, b, h⟩
  · rintro ⟨a, b, h⟩
    exact ⟨a, b, Nat.zero_le a, h⟩

/-- The loop over the candidates replaces those that pass. -/
theorem rebuildCards_eq {text : List Char} {replacement : String} {found : List (ℕ × ℕ)}
    {cursor : ℕ}
    (h : Ranges isWord text cursor found) : (rebuildCards plain text replacement found cursor).1 =
    splice text cursor
      ((found.filter fun r => luhnCheck (slice text r.1 r.2)).map fun r =>
        (r.1, r.2, replacement.toList)) := by
  have hplain (l : List Char) : l.map plain.char = l := List.map_id l
  have hplain' (l : List Char) : l.map plain.ofChar = l := List.map_id l
  induction found generalizing cursor with
  | nil => rfl
  | cons r found ih =>
    obtain ⟨s, e⟩ := r
    have hs : ¬s < cursor := Nat.not_lt.2 h.1
    have hse : s < e := h.2.1
    have hrest := h.2.2.2.2
    rw [rebuildCards, if_neg hs, hplain]
    dsimp only
    cases hluhn : luhnCheck (slice text s e) with
    | true =>
      have hfilter : ((s, e) :: found).filter (fun r => luhnCheck (slice text r.1 r.2))
          = (s, e) :: found.filter fun r => luhnCheck (slice text r.1 r.2) :=
          List.filter_cons_of_pos hluhn
      rw [if_pos rfl, hfilter, List.map_cons, splice, ← ih hrest, hplain']
    | false =>
      have hfilter : ((s, e) :: found).filter (fun r => luhnCheck (slice text r.1 r.2))
          = found.filter fun r => luhnCheck (slice text r.1 r.2) :=
          List.filter_cons_of_neg (by rw [hluhn]; exact Bool.false_ne_true)
      have hle : cursor ≤ e := Nat.le_trans h.1 (Nat.le_of_lt hse)
      rw [if_neg Bool.false_ne_true, hfilter, ih hrest, splice_from (hrest.filter _) hle,
        slice_append text h.1 (Nat.le_of_lt hse)]

theorem map_findIter (length : List Char → Option ℕ) (text : List Char) :
    ((wordRegex isWord length).capturesIter (text.map plain.char)).map
    (fun m => (m.start, m.stop)) = findIter isWord length text := by
  have hplain : text.map plain.char = text := List.map_id text
  rw [hplain, wordRegex, List.map_map]
  exact List.map_id _

/-- What is left of the cards after the pattern for them. -/
theorem hasCard_creditCard (hword : WordClass isWord) (text : List Char) :
    HasCard isWord ((creditCard isWord).apply plain text).1 ↔ ∃ a b, At isWord Card text a b ∧
      ∀ r ∈ findIter isWord (cardLength isWord 18 12) text, luhnCheck (slice text r.1 r.2) = true →
      b ≤ r.1 ∨ r.2 ≤ a := by
  have hranges := ranges_findIter (words_cardLength hword 18 12) text
  have hnew : Apart isWord (fun c => c.isDigit || isSep c)
      ("[REDACTED:" ++ "credit_card" ++ "]").toList :=
    apart_replacement hword fun c hc => Bool.not_eq_true' _ ▸ List.all_eq_true.1
      (show "credit_card".toList.all (fun c => !(c.isDigit || isSep c)) = true by decide) c hc
  have happly : ((creditCard isWord).apply plain text).1
      = (rebuildCards plain text ("[REDACTED:" ++ "credit_card" ++ "]")
        (findIter isWord (cardLength isWord 18 12) text) 0).1 := by
    rw [← map_findIter]
    unfold RedactionPattern.apply creditCard builtin
    dsimp only
    by_cases hempty :
      ((wordRegex isWord (cardLength isWord 18 12)).capturesIter (text.map plain.char)).isEmpty =
      true
    · rw [if_pos hempty, List.isEmpty_iff.1 hempty, List.map_nil, rebuildCards, List.drop_zero]
    · rw [if_neg hempty]
  rw [happly, rebuildCards_eq hranges, hasCard_splice hword (hranges.filter _) hnew]
  constructor
  · rintro ⟨a, b, hat, hall⟩
    exact ⟨a, b, hat, fun r hr hluhn => hall r (List.mem_filter.2 ⟨hr, hluhn⟩)⟩
  · rintro ⟨a, b, hat, hall⟩
    exact ⟨a, b, hat, fun r hr => hall r (List.mem_filter.1 hr).1 (List.mem_filter.1 hr).2⟩

/-- A match is a word, or the beginning of one, and does not begin like a card. -/
def Worded (isWord : Char → Bool) (length : List Char → Option ℕ) : Prop :=
  ∀ cs n, length cs = some n →
  (∀ c ∈ cs.head?, (c.isDigit || isSep c) = false) ∧ ∀ i < n, ∀ c ∈ cs[i]?, isWord c = true

/-- A card meets no match of such a pattern, so these leave the cards as they are. -/
theorem hasCard_worded (hword : WordClass isWord) {name : String} {length : List Char → Option ℕ}
    (hwords : Words isWord length)
    (hworded : Worded isWord length) (hname : ∀ c ∈ name.toList, (c.isDigit || isSep c) = false)
    (text : List Char) :
    HasCard isWord ((builtin isWord name length .literal).apply plain text).1 ↔
    HasCard isWord text := by
  have hranges := ranges_findIter hwords text
  have happly : ((builtin isWord name length .literal).apply plain text).1
      = splice text 0
      ((findIter isWord length text).map fun r =>
        (r.1, r.2, ("[REDACTED:" ++ name ++ "]").toList)) := by
    have hplain (l : List Char) : l.map plain.ofChar = l := List.map_id l
    have hnew : ((wordRegex isWord length).capturesIter (text.map plain.char)).map
        (fun m => (m.start, m.stop,
          ((wordRegex isWord length).template ("[REDACTED:" ++ name ++ "]")).flatMap
            (m.expand plain text)))
        = (findIter isWord length text).map fun r =>
        (r.1, r.2, ("[REDACTED:" ++ name ++ "]").toList) := by
      rw [← map_findIter, List.map_map]
      refine List.map_congr_left fun m _ => ?_
      rw [wordRegex, List.flatMap_singleton, RegexMatch.expand, hplain]
      rfl
    rw [← hnew]
    unfold RedactionPattern.apply builtin
    dsimp only
    by_cases hempty : ((wordRegex isWord length).capturesIter (text.map plain.char)).isEmpty = true
    · rw [if_pos hempty, List.isEmpty_iff.1 hempty, List.map_nil, splice, List.drop_zero]
    · rw [if_neg hempty, Regex.replaceAll]
  rw [happly, hasCard_splice hword hranges (apart_replacement hword hname)]
  constructor
  · rintro ⟨a, b, hat, -⟩
    exact ⟨a, b, hat⟩
  · rintro ⟨a, b, hat⟩
    refine ⟨a, b, hat, fun r hr => ?_⟩
    by_contra hmeet
    rw [not_or, Nat.not_le, Nat.not_le] at hmeet
    obtain ⟨hb, ha⟩ := hmeet
    obtain ⟨n, -, hstop, hlength⟩ := length_of_mem_findFrom hr
    rw [Nat.sub_zero] at hlength
    obtain ⟨hhead, hall⟩ := hworded _ _ hlength
    by_cases hle : a ≤ r.1
    · -- the card holds the first character of the match
      obtain ⟨c, hc, hok⟩ := hat.mem (kind_card hword) hle hb
      rw [hhead c (by rw [List.head?_drop]; exact hc)] at hok
      cases hok
    · -- the match holds the character before the card
      have hplace : r.1 + (a - 1 - r.1) = a - 1 := by omega
      have hlen : a < text.length := Nat.lt_of_lt_of_le hat.lt hat.le
      have hget : text[a - 1]? = some text[a - 1] := List.getElem?_eq_getElem _
      have hgap := hat.left (a - 1) (by omega) _ hget
      have hin :=
        hall (a - 1 - r.1) (by omega) text[a - 1] (by rw [List.getElem?_drop, hplace]; exact hget)
      rw [hgap] at hin
      cases hin

theorem bodyLength_spec {isBody : Char → Bool} {least most n : ℕ} {cs : List Char}
    (h : bodyLength isWord isBody least most cs = some n) :
    least ≤ n ∧ n ≤ cs.length ∧ (∀ c ∈ cs.take n, isBody c = true) ∧
    boundary isWord (cs.take n).getLast? cs[n]? = true := by
  have hfound := List.find?_some h
  simp only [Bool.and_eq_true, decide_eq_true_eq, List.all_eq_true] at hfound
  obtain ⟨⟨⟨hleast, hlen⟩, hall⟩, hboundary⟩ := hfound
  exact ⟨hleast, hlen, hall, hboundary⟩

/-- Word characters, then a body of word characters: a word up to a boundary. -/
theorem match_of_body {isBody : Char → Bool} (hbody : ∀ c, isBody c = true → isWord c = true)
    {least most n : ℕ} (hleast : 1 ≤ least) {pre cs : List Char} (hpre : ∀ c ∈ pre, isWord c = true)
    (h : bodyLength isWord isBody least most cs = some n) :
    (1 ≤ n + pre.length ∧ n + pre.length ≤ (pre ++ cs).length ∧
      (∀ c ∈ (pre ++ cs).head?, isWord c = true) ∧
      Gap isWord (pre ++ cs) (n + pre.length)) ∧ ∀ i < n + pre.length, ∀ c ∈ (pre ++ cs)[i]?,
      isWord c = true := by
  obtain ⟨hn, hlen, hall, hboundary⟩ := bodyLength_spec h
  have hwords : ∀ i < n + pre.length, ∀ c ∈ (pre ++ cs)[i]?, isWord c = true := by
    intro i hi c hc
    by_cases hlt : i < pre.length
    · rw [List.getElem?_append_left hlt] at hc
      exact hpre c (List.mem_of_getElem? hc)
    · rw [List.getElem?_append_right (Nat.not_lt.1 hlt)] at hc
      refine hbody c (hall c (List.mem_of_getElem? (i := i - pre.length) ?_))
      rw [List.getElem?_take_of_lt (by omega)]
      exact hc
  refine ⟨⟨by omega, by rw [List.length_append]; omega, fun c hc => ?_, fun c hc => ?_⟩, hwords⟩
  · rw [List.head?_eq_getElem?] at hc
    exact hwords 0 (by omega) c hc
  · have hfull : cs.take n ≠ [] := by
      intro hempty
      have hlength := congrArg List.length hempty
      rw [List.length_take, List.length_nil] at hlength
      omega
    obtain ⟨d, hd⟩ := Option.isSome_iff_exists.1 (List.getLast?_isSome.2 hfull)
    rw [hd] at hboundary
    rw [Nat.add_comm, getElem?_append_cons] at hc
    exact gap_of_boundary (hbody d (hall d (List.mem_of_getLast? hd))) hboundary c hc

theorem isWord_upperOrDigit (hword : WordClass isWord) {c : Char} (h : upperOrDigit c = true) :
    isWord c = true := by
  refine hword.alphanum c ?_
  rw [upperOrDigit, Bool.or_eq_true] at h
  change (c.isUpper || c.isLower || c.isDigit) = true
  rcases h with h | h
  · rw [h, Bool.true_or, Bool.true_or]
  · rw [h, Bool.or_true]

theorem hasCard_awsAccessKey (hword : WordClass isWord) (text : List Char) :
    HasCard isWord ((awsAccessKey isWord).apply plain text).1 ↔ HasCard isWord text := by
  have hmatch {cs : List Char} {n : ℕ} (h : (if "AKIA".toList.isPrefixOf cs then
      (bodyLength isWord upperOrDigit 16 16 (cs.drop 4)).map (· + 4) else none) = some n) :
      ∃ rest m, cs = "AKIA".toList ++ rest ∧ bodyLength isWord upperOrDigit 16 16 rest = some m ∧
      n = m + "AKIA".toList.length := by
    split_ifs at h with hkey
    obtain ⟨rest, rfl⟩ := List.isPrefixOf_iff_prefix.1 hkey
    obtain ⟨m, hm, rfl⟩ := Option.map_eq_some_iff.1 h
    exact ⟨rest, m, rfl, hm, rfl⟩
  have hpre : ∀ c ∈ "AKIA".toList, isWord c = true := fun c hc =>
    hword.alphanum c (List.all_eq_true.1 (show "AKIA".toList.all Char.isAlphanum = true by decide)
      c hc)
  refine hasCard_worded hword ?_ ?_ ?_ text
  · intro cs n h
    obtain ⟨rest, m, rfl, hm, rfl⟩ := hmatch h
    exact (match_of_body (fun c => isWord_upperOrDigit hword) (by decide) hpre hm).1
  · intro cs n h
    obtain ⟨rest, m, rfl, hm, rfl⟩ := hmatch h
    refine ⟨fun c hc => Option.some.inj hc ▸ rfl, ?_⟩
    exact (match_of_body (fun c => isWord_upperOrDigit hword) (by decide) hpre hm).2
  · exact fun c hc => Bool.not_eq_true' _ ▸ List.all_eq_true.1
      (show "aws_access_key".toList.all (fun c => !(c.isDigit || isSep c)) = true by decide) c hc

theorem hasCard_githubPat (hword : WordClass isWord) (text : List Char) :
    HasCard isWord ((githubPat isWord).apply plain text).1 ↔ HasCard isWord text := by
  have hmatch {cs : List Char} {n : ℕ} (h : (match cs with
      | 'g' :: 'h' :: k :: '_' :: cs =>
        if "pousr".toList.contains k then (bodyLength isWord Char.isAlphanum 36 255 cs).map (· + 4)
          else none
      | _ => none) = some n) : ∃ k rest m, k ∈ "pousr".toList ∧ cs = ['g', 'h', k, '_'] ++ rest ∧
        bodyLength isWord Char.isAlphanum 36 255 rest = some m ∧
        n = m + ['g', 'h', k, '_'].length := by
    split at h
    · rename_i k rest
      split_ifs at h with hkind
      obtain ⟨m, hm, rfl⟩ := Option.map_eq_some_iff.1 h
      exact ⟨k, rest, m, List.contains_iff_mem.1 hkind, rfl, hm, rfl⟩
    · cases h
  have hpre {k : Char} (hk : k ∈ "pousr".toList) : ∀ c ∈ ['g', 'h', k, '_'], isWord c = true := by
    have hkind : k.isAlphanum = true :=
      List.all_eq_true.1 (show "pousr".toList.all Char.isAlphanum = true by decide) k hk
    intro c hc
    simp only [List.mem_cons, List.not_mem_nil, or_false] at hc
    rcases hc with rfl | rfl | rfl | rfl
    · exact hword.alphanum _ (by decide)
    · exact hword.alphanum _ (by decide)
    · exact hword.alphanum _ hkind
    · exact hword.underscore
  refine hasCard_worded hword ?_ ?_ ?_ text
  · intro cs n h
    obtain ⟨k, rest, m, hk, rfl, hm, rfl⟩ := hmatch h
    exact (match_of_body hword.alphanum (by decide) (hpre hk) hm).1
  · intro cs n h
    obtain ⟨k, rest, m, hk, rfl, hm, rfl⟩ := hmatch h
    refine ⟨fun c hc => Option.some.inj hc ▸ rfl, ?_⟩
    exact (match_of_body hword.alphanum (by decide) (hpre hk) hm).2
  · exact fun c hc => Bool.not_eq_true' _ ▸ List.all_eq_true.1
      (show "github_pat".toList.all (fun c => !(c.isDigit || isSep c)) = true by decide) c hc

/-! ### The registry -/

theorem foldl_redactStep_cards {after : List RedactionPattern}
    (hafter : ∀ p ∈ after, ∀ text, HasCard isWord (p.apply plain text).1 ↔ HasCard isWord text)
    (st : RedactionResult Char) :
    HasCard isWord (after.foldl (RedactionRegistry.redactStep plain) st).text ↔
    HasCard isWord st.text := by
  induction after generalizing st with
  | nil => exact Iff.rfl
  | cons p after ih =>
    obtain ⟨hp, hafter⟩ := List.forall_mem_cons.1 hafter
    exact (ih hafter _).trans (hp st.text)

end

/-- No card is left exactly if, in the text that the pattern for cards gets, every card meets a
candidate that passes the check. The patterns after it are to leave cards as they are, as the
built-in ones do. -/
theorem redact_no_card_iff {isWord : Char → Bool} (hword : WordClass isWord)
    (reg : RedactionRegistry) (henabled : reg.enabled = true)
    {before after : List RedactionPattern}
    (hactive : reg.active = before ++ creditCard isWord :: after)
    (hafter : ∀ p ∈ after, ∀ text, HasCard isWord (p.apply plain text).1 ↔ HasCard isWord text)
    (input : List Char) : ¬ HasCard isWord (reg.redact plain input).text ↔
      ∀ a b, At isWord Card (before.foldl (RedactionRegistry.redactStep plain) ⟨input, []⟩).text a
      b →
        ∃ r ∈ findIter isWord (cardLength isWord 18 12)
        (before.foldl (RedactionRegistry.redactStep plain) ⟨input, []⟩).text,
          luhnCheck
          (slice (before.foldl (RedactionRegistry.redactStep plain) ⟨input, []⟩).text r.1 r.2) =
          true ∧
            r.1 < b ∧ a < r.2 := by
  have hpatterns : reg.patterns.isEmpty = false := by
    cases hempty : reg.patterns with
    | nil =>
      rw [RedactionRegistry.active, hempty, List.filter_nil] at hactive
      exact absurd hactive.symm (List.append_ne_nil_of_right_ne_nil _ (List.cons_ne_nil _ _))
    | cons p patterns => rfl
  have hredact : reg.redact plain input = reg.active.foldl (RedactionRegistry.redactStep plain)
      ⟨input, []⟩ := by
    rw [RedactionRegistry.redact, RedactionRegistry.isEnabled, henabled, hpatterns]
    rfl
  rw [hredact, hactive, List.foldl_append, List.foldl_cons, foldl_redactStep_cards hafter]
  have hcard :=
    hasCard_creditCard hword (before.foldl (RedactionRegistry.redactStep plain) ⟨input, []⟩).text
  constructor
  · intro hno a b hat
    by_contra hnone
    refine hno (hcard.2 ⟨a, b, hat, fun r hr hluhn => ?_⟩)
    by_cases hb : r.1 < b
    · by_cases ha : a < r.2
      · exact absurd ⟨r, hr, hluhn, hb, ha⟩ hnone
      · exact .inr (Nat.not_lt.1 ha)
    · exact .inl (Nat.not_lt.1 hb)
  · intro hall hhas
    obtain ⟨a, b, hat, hdisjoint⟩ := hcard.1 hhas
    obtain ⟨r, hr, hluhn, hb, ha⟩ := hall a b hat
    rcases hdisjoint r hr hluhn with h | h
    · omega
    · omega

/-- The built-in patterns from the one for cards on, and a number behind a word. -/
theorem redact_no_card_iff_visa :
    let isWord : Char → Bool := fun c => c.isAlphanum || c = '_'
    let reg : RedactionRegistry :=
      ⟨[creditCard isWord, awsAccessKey isWord, githubPat isWord], true⟩
    ¬ HasCard isWord (reg.redact plain "pay 4111-1111-1111-1111".toList).text := by
  intro isWord reg
  have hword : WordClass isWord := ⟨fun c hc => Bool.or_eq_true_iff.2 (.inl hc), rfl, rfl, rfl⟩
  have hactive : reg.active = [] ++ creditCard isWord :: [awsAccessKey isWord, githubPat isWord] :=
    rfl
  have hafter : ∀ p ∈ [awsAccessKey isWord, githubPat isWord], ∀ text,
      HasCard isWord (p.apply plain text).1 ↔ HasCard isWord text := by
    intro p hp text
    rcases List.mem_cons.1 hp with rfl | hp
    · exact hasCard_awsAccessKey hword text
    · obtain rfl := List.mem_singleton.1 hp
      exact hasCard_githubPat hword text
  refine (redact_no_card_iff hword reg rfl hactive hafter _).2 fun a b hat => ?_
  have hlt : a < b := hat.lt
  have hle : b ≤ 23 := hat.le
  have hfrom : ∀ a < 4, ∀ b < 24, spaced (slice "pay 4111-1111-1111-1111".toList a b) = false := by
    decide +kernel
  have ha : 4 ≤ a := by
    by_contra ha
    have hspaced := hat.kind.1
    rw [List.foldl_nil, hfrom a (by omega) b (by omega)] at hspaced
    cases hspaced
  refine ⟨(4, 23), ?_, ?_, ?_, ?_⟩
  · decide +kernel
  · decide +kernel
  · dsimp only
    omega
  · dsimp only
    omega

/-- A number and a card behind it are one candidate, which fails the check. -/
theorem redact_leaves_card :
    let isWord : Char → Bool := fun c => c.isAlphanum || c = '_'
    let reg : RedactionRegistry :=
      ⟨[creditCard isWord, awsAccessKey isWord, githubPat isWord], true⟩
    HasCard isWord (reg.redact plain "12 4111111111111111".toList).text := by
  intro isWord reg
  have htext : (reg.redact plain "12 4111111111111111".toList).text =
      "12 4111111111111111".toList := by decide +kernel
  rw [htext]
  refine ⟨3, 19, by decide, by decide, by decide, fun i hi c hc => ?_, fun c hc => ?_⟩
  · obtain rfl : i = 2 := Nat.succ.inj hi
    exact Option.some.inj hc ▸ rfl
  · cases hc

end Solo
