import Mathlib.Data.List.Basic

/-!
# Words in single quotes

A command line of words, each in single quotes, written as a POSIX shell or PowerShell reads them.
One scan reads both back: a quote in a word is `'\''` in the one and `''` in the other. Where such a
line of words without quotes occurs in a line of any words, it stands for words of it, but for what
is before the first and after the last.
-/

namespace Quote

inductive Shell where
  | posix
  | powershell

/-- What stands for a quote in a quoted word. -/
def Shell.escaped : Shell → List Char
  | .posix => ['\'', '\\', '\'', '\'']
  | .powershell => ['\'', '\'']

def escape (shell : Shell) (word : List Char) : List Char :=
  word.flatMap fun c => if c = '\'' then shell.escaped else [c]

def quoted (shell : Shell) (word : List Char) : List Char := '\'' :: (escape shell word ++ ['\''])

/-- The quoted words with a space between any two. -/
def line (shell : Shell) : List (List Char) → List Char
  | [] => []
  | [word] => quoted shell word
  | word :: words => quoted shell word ++ ' ' :: line shell words

/-! ### The scan -/

/-- Before a word, in quotes, after a closing quote, after a backslash, and after an escaped
quote. -/
inductive Mode where
  | before
  | inside
  | closed
  | slashed
  | reopening
  deriving DecidableEq

/-- The words that are done, and what was read of the next one. -/
structure Scan where
  done : List (List Char)
  word : List Char
  mode : Mode

def step (s : Scan) (c : Char) : Option Scan :=
  match s.mode with
  | .before => if c = '\'' then some ⟨s.done, s.word, .inside⟩ else none
  | .inside => if c = '\'' then some ⟨s.done, s.word, .closed⟩
    else some ⟨s.done, s.word ++ [c], .inside⟩
  | .closed =>
    if c = ' ' then some ⟨s.done ++ [s.word], [], .before⟩
    else if c = '\\' then some ⟨s.done, s.word, .slashed⟩
    else if c = '\'' then some ⟨s.done, s.word ++ ['\''], .inside⟩
    else none
  | .slashed => if c = '\'' then some ⟨s.done, s.word ++ ['\''], .reopening⟩ else none
  | .reopening => if c = '\'' then some ⟨s.done, s.word, .inside⟩ else none

def run : Scan → List Char → Option Scan
  | s, [] => some s
  | s, c :: cs => (step s c).bind fun s => run s cs

/-- All words, the last one included. -/
def Scan.words (s : Scan) : List (List Char) := s.done ++ [s.word]

theorem run_append (s : Scan) (a b : List Char) : run s (a ++ b) = (run s a).bind fun t =>
    run t b := by
  induction a generalizing s with
  | nil => rfl
  | cons c a ih =>
    rw [List.cons_append, run, run]
    cases step s c with
    | none => rfl
    | some t => exact ih t

theorem run_append_eq_some {s t : Scan} {a b : List Char} (h : run s (a ++ b) = some t) :
    ∃ m, run s a = some m ∧ run m b = some t := by
  rw [run_append] at h
  exact Option.bind_eq_some_iff.1 h

theorem run_escape (shell : Shell) (done : List (List Char)) (w word : List Char) :
    run ⟨done, w, .inside⟩ (escape shell word) = some ⟨done, w ++ word, .inside⟩ := by
  induction word generalizing w with
  | nil => rw [List.append_nil]; rfl
  | cons c word ih =>
    have hcons : escape shell (c :: word) = (if c = '\'' then shell.escaped else [c]) ++
        escape shell word := List.flatMap_cons
    rw [hcons, run_append]
    by_cases hc : c = '\''
    · have hquote : run ⟨done, w, .inside⟩ shell.escaped = some ⟨done, w ++ ['\''], .inside⟩ := by
        cases shell with
        | posix => rfl
        | powershell => rfl
      rw [if_pos hc, hquote, Option.bind_some, ih, List.append_assoc, List.singleton_append, hc]
    · have hplain : run ⟨done, w, .inside⟩ [c] = some ⟨done, w ++ [c], .inside⟩ := by
        have hstep : step ⟨done, w, .inside⟩ c = some ⟨done, w ++ [c], .inside⟩ := if_neg hc
        rw [run, hstep]
        rfl
      rw [if_neg hc, hplain, Option.bind_some, ih, List.append_assoc, List.singleton_append]

theorem run_quoted (shell : Shell) (done : List (List Char)) (word : List Char) :
    run ⟨done, [], .before⟩ (quoted shell word) = some ⟨done, word, .closed⟩ := by
  have hopen : step ⟨done, [], .before⟩ '\'' = some ⟨done, [], .inside⟩ := rfl
  rw [quoted, run, hopen, Option.bind_some, run_append, run_escape, Option.bind_some,
    List.nil_append]
  rfl

theorem line_cons (shell : Shell) (word : List Char) {words : List (List Char)} (h : words ≠ []) :
    line shell (word :: words) = quoted shell word ++ ' ' :: line shell words := by
  cases words with
  | nil => exact absurd rfl h
  | cons => rfl

/-- A line is read back, after the words that are done. -/
theorem run_line (shell : Shell) (done words : List (List Char)) (last : List Char) :
    run ⟨done, [], .before⟩ (line shell (words ++ [last])) =
    some ⟨done ++ words, last, .closed⟩ := by
  induction words generalizing done with
  | nil => rw [List.append_nil]; exact run_quoted shell done last
  | cons word words ih =>
    have hspace : step ⟨done, word, .closed⟩ ' ' = some ⟨done ++ [word], [], .before⟩ := rfl
    rw [List.cons_append, line_cons shell word (List.concat_ne_nil _ _), run_append, run_quoted,
      Option.bind_some, run, hspace, Option.bind_some, ih, List.append_assoc, List.singleton_append]

theorem line_append (shell : Shell) {a b : List (List Char)} (ha : a ≠ []) (hb : b ≠ []) :
    line shell (a ++ b) = line shell a ++ ' ' :: line shell b := by
  induction a with
  | nil => exact absurd rfl ha
  | cons word a ih =>
    rw [List.cons_append, line_cons shell word (List.append_ne_nil_of_right_ne_nil a hb)]
    cases a with
    | nil => rfl
    | cons next a =>
      have hne : next :: a ≠ [] := List.cons_ne_nil _ _
      rw [ih hne, line_cons shell word hne, List.append_assoc, List.cons_append]

/-! ### Occurrences -/

/-- The words that are done in `s` stay, and what was read of the next one. -/
def Extends (s t : Scan) : Prop := ∃ x more, t.words = s.done ++ (s.word ++ x) :: more

theorem extends_self {done : List (List Char)} {word : List Char} {mode mode' : Mode} :
    Extends ⟨done, word, mode⟩ ⟨done, word, mode'⟩ := ⟨[], [], by rw [List.append_nil]; rfl⟩

theorem extends_char {done : List (List Char)} {word : List Char} {mode mode' : Mode} (c : Char) :
    Extends ⟨done, word, mode⟩ ⟨done, word ++ [c], mode'⟩ := ⟨[c], [], rfl⟩

theorem extends_next {done : List (List Char)} {word : List Char} {mode mode' : Mode} :
    Extends ⟨done, word, mode⟩ ⟨done ++ [word], [], mode'⟩ :=
  ⟨[], [[]], by rw [List.append_nil, Scan.words, List.append_assoc]; rfl⟩

theorem step_extends {s t : Scan} {c : Char} (h : step s c = some t) : Extends s t := by
  obtain ⟨done, word, mode⟩ := s
  cases mode with
  | before =>
    dsimp only [step] at h
    split_ifs at h
    exact Option.some.inj h ▸ extends_self
  | inside =>
    dsimp only [step] at h
    split_ifs at h
    · exact Option.some.inj h ▸ extends_self
    · exact Option.some.inj h ▸ extends_char c
  | closed =>
    dsimp only [step] at h
    split_ifs at h
    · exact Option.some.inj h ▸ extends_next
    · exact Option.some.inj h ▸ extends_self
    · exact Option.some.inj h ▸ extends_char '\''
  | slashed =>
    dsimp only [step] at h
    split_ifs at h
    exact Option.some.inj h ▸ extends_char '\''
  | reopening =>
    dsimp only [step] at h
    split_ifs at h
    exact Option.some.inj h ▸ extends_self

theorem Extends.trans {s t u : Scan} (hst : Extends s t) (htu : Extends t u) : Extends s u := by
  obtain ⟨x, more, hst⟩ := hst
  obtain ⟨y, more', htu⟩ := htu
  rw [Scan.words] at hst
  rcases List.eq_nil_or_concat more with rfl | ⟨more, last, rfl⟩
  · obtain ⟨hdone, hword⟩ := List.append_inj' hst rfl
    refine ⟨x ++ y, more', ?_⟩
    rw [htu, hdone, (List.cons.inj hword).1, List.append_assoc]
  · rw [List.concat_eq_append, ← List.cons_append, ← List.append_assoc] at hst
    obtain ⟨hdone, -⟩ := List.append_inj' hst rfl
    refine ⟨x, more ++ (t.word ++ y) :: more', ?_⟩
    rw [htu, hdone, List.append_assoc, List.cons_append]

theorem run_extends {s t : Scan} {cs : List Char} (h : run s cs = some t) : Extends s t := by
  induction cs generalizing s with
  | nil => exact Option.some.inj h ▸ extends_self
  | cons c cs ih =>
    rw [run] at h
    obtain ⟨m, hm, h⟩ := Option.bind_eq_some_iff.1 h
    exact (step_extends hm).trans (ih h)

/-- A quote and a character that stands outside of quotes nowhere: the quote opens. -/
theorem inside_of_quote {s t u : Scan} {c : Char} (hquote : step s '\'' = some t)
    (hc : step t c = some u)
    (hspace : c ≠ ' ') (hslash : c ≠ '\\') (hplain : c ≠ '\'') : t.mode = .inside := by
  obtain ⟨done, word, mode⟩ := s
  cases mode with
  | before => exact Option.some.inj hquote ▸ rfl
  | inside =>
    obtain rfl := Option.some.inj hquote
    dsimp only [step] at hc
    rw [if_neg hspace, if_neg hslash, if_neg hplain] at hc
    cases hc
  | closed => exact Option.some.inj hquote ▸ rfl
  | slashed =>
    obtain rfl := Option.some.inj hquote
    dsimp only [step] at hc
    rw [if_neg hplain] at hc
    cases hc
  | reopening => exact Option.some.inj hquote ▸ rfl

theorem escape_plain {word : List Char} (h : '\'' ∉ word) (shell : Shell) :
    escape shell word = word := by
  unfold escape
  induction word with
  | nil => rfl
  | cons c word ih =>
    have hc : c ≠ '\'' := fun hc => h (hc ▸ List.mem_cons_self)
    rw [List.flatMap_cons, if_neg hc, ih fun hmem => h (List.mem_cons_of_mem _ hmem)]
    rfl

theorem line_plain {words : List (List Char)} (h : ∀ word ∈ words, '\'' ∉ word)
    (shell shell' : Shell) : line shell words = line shell' words := by
  induction words with
  | nil => rfl
  | cons word words ih =>
    have hword : quoted shell word = quoted shell' word := by
      rw [quoted, quoted, escape_plain (h word List.mem_cons_self),
        escape_plain (h word List.mem_cons_self)]
    cases words with
    | nil => exact hword
    | cons next words =>
      have hne : next :: words ≠ [] := List.cons_ne_nil _ _
      rw [line_cons shell word hne, line_cons shell' word hne, hword,
        ih fun w hw => h w (List.mem_cons_of_mem _ hw)]

/-- Where words occur in a line, they are words of it, but for what is before the first and after
the last. -/
theorem words_of_infix {shell shell' : Shell} {parts words : List (List Char)}
    {first last : List Char} {c : Char}
    (hparts : parts ≠ []) (hfirst : '\'' ∉ c :: first) (hspace : c ≠ ' ') (hslash : c ≠ '\\')
    (hoccurs : line shell' ((c :: first) :: words ++ [last]) <:+: line shell parts) :
    ∃ before pre x more, parts = before ++ (pre ++ c :: first) :: words ++ (last ++ x) :: more := by
  obtain ⟨a, b, hab⟩ := hoccurs
  obtain ⟨parts, final, rfl⟩ := (List.eq_nil_or_concat parts).resolve_left hparts
  rw [List.concat_eq_append] at hab ⊢
  have hall := run_line shell [] parts final
  rw [← hab, List.append_assoc] at hall
  obtain ⟨s, -, hs⟩ := run_append_eq_some hall
  obtain ⟨t, ht, hend⟩ := run_append_eq_some hs
  rw [List.cons_append, line_cons shell' _ (List.concat_ne_nil _ _), quoted, escape_plain hfirst,
    List.cons_append, List.append_assoc, run] at ht
  obtain ⟨opened, hopen, ht⟩ := Option.bind_eq_some_iff.1 ht
  -- the first word is read in quotes, so its own quotes and the space end it
  obtain ⟨u, hu, -⟩ := Option.bind_eq_some_iff.1 ht
  have hinside : opened.mode = .inside :=
    inside_of_quote hopen hu hspace hslash fun hc => hfirst (hc ▸ List.mem_cons_self)
  obtain ⟨done, pre, mode⟩ := opened
  obtain rfl : mode = .inside := hinside
  have hword := run_escape shell' done pre (c :: first)
  rw [escape_plain hfirst] at hword
  have hspace : run ⟨done, pre ++ c :: first, .inside⟩ ['\'', ' '] =
      some ⟨done ++ [pre ++ c :: first], [], .before⟩ := rfl
  have hread :
      run ⟨done, pre, .inside⟩ (c :: first ++ (['\'', ' '] ++ line shell' (words ++ [last])))
      = some ⟨done ++ [pre ++ c :: first] ++ words, last, .closed⟩ := by
    rw [run_append, hword, Option.bind_some, run_append, hspace, Option.bind_some, run_line]
  obtain rfl := Option.some.inj (ht.symm.trans hread)
  obtain ⟨x, more, hwords⟩ := run_extends hend
  refine ⟨done, pre, x, more, ?_⟩
  have hleft : parts ++ [final] = done ++ [pre ++ c :: first] ++ words ++ (last ++ x) :: more :=
    hwords
  rw [hleft, List.append_assoc done, List.singleton_append]

end Quote
