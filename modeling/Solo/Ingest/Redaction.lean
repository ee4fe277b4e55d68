import Mathlib.Algebra.Group.Nat.Defs
import Solo.Lib.Marked

/-!
# Redaction (`redaction/registry.rs`, `redaction/builtins.rs`)

The enabled patterns run one after another, each on the text that the ones before it left. A pattern
replaces the matches of its regex; one for credit cards only those that pass the Luhn check. The
regex engine is a parameter: where a regex matches in a text, and how a replacement string is read.
-/

namespace Solo

open Letters

/-- A match: the range of the whole, and of each group that took part. -/
structure RegexMatch where
  start : ℕ
  stop : ℕ
  groups : List (Option (ℕ × ℕ))
  deriving DecidableEq

/-- A part of a replacement string: itself, or what a group matched. -/
inductive TemplatePart
  | literal (s : List Char)
  | group (i : ℕ)

structure Regex where
  /-- `captures_iter`: the successive matches, at positions counted in characters. -/
  capturesIter : List Char → List RegexMatch
  /-- How `replace_all` reads `$` in a replacement string. -/
  template : String → List TemplatePart

inductive RedactionPatternKind
  | literal | creditCardWithLuhn
  deriving DecidableEq

structure RedactionPattern where
  name : String
  regex : Regex
  replacement : String
  enabled : Bool
  kind : RedactionPatternKind

structure RedactionRegistry where
  patterns : List RedactionPattern
  enabled : Bool

structure RedactionMatch where
  patternName : String
  count : ℕ
  deriving DecidableEq

structure RedactionResult (α : Type) where
  text : List α
  matchCounts : List RedactionMatch

/-- `to_digit(10)` -/
def toDigit (c : Char) : Option ℕ := if c.isDigit then some (c.toNat - '0'.toNat) else none

/-- The doubled value of every second digit from the right. -/
def luhnValue (x : ℕ × ℕ) : ℕ :=
  if x.2 % 2 = 1 then (if 9 < x.1 * 2 then x.1 * 2 - 9 else x.1 * 2) else x.1

def luhnCheck (cs : List Char) : Bool :=
  let digits := cs.filterMap toDigit
  if digits.length < 13 ∨ 19 < digits.length then false
  else (digits.reverse.zipIdx.map luhnValue).foldl (· + ·) 0 % 10 = 0

variable {α β : Type} (L : Letters α)

def RegexMatch.expand (m : RegexMatch) (text : List α) : TemplatePart → List α
  | .literal s => s.map L.ofChar
  | .group i =>
    match m.groups[i]? with
    | some (some (a, b)) => slice text a b
    | _ => []

/-- `replace_all` -/
def Regex.replaceAll (re : Regex) (text : List α) (replacement : String) : List α :=
  splice text 0 ((re.capturesIter (text.map L.char)).map fun m =>
    (m.start, m.stop, (re.template replacement).flatMap (m.expand L text)))

/-- The loop over the candidates for a credit card, from `cursor` on: the rebuilt text, and how many
were replaced. -/
def rebuildCards (text : List α) (replacement : String) : List (ℕ × ℕ) → ℕ → List α × ℕ
  | [], cursor => (text.drop cursor, 0)
  | (s, e) :: rest, cursor =>
    if s < cursor then rebuildCards text replacement rest cursor
    else
      let (rebuilt, kept) := rebuildCards text replacement rest e
      if luhnCheck ((slice text s e).map L.char) then
        (slice text cursor s ++ replacement.toList.map L.ofChar ++ rebuilt, kept + 1)
      else (slice text cursor s ++ slice text s e ++ rebuilt, kept)

/-- What one pattern makes of the text, and the count it reports. -/
def RedactionPattern.apply (p : RedactionPattern) (text : List α) : List α × Option ℕ :=
  let found := p.regex.capturesIter (text.map L.char)
  match p.kind with
  | .literal =>
    if found.isEmpty then (text, none)
    else (p.regex.replaceAll L text p.replacement, some (found.length % 2 ^ 32))
  | .creditCardWithLuhn =>
    if found.isEmpty then (text, none)
    else
      let (rebuilt, kept) :=
        rebuildCards L text p.replacement (found.map fun m => (m.start, m.stop)) 0
      (rebuilt, if kept % 2 ^ 32 = 0 then none else some (kept % 2 ^ 32))

namespace RedactionRegistry

def isEnabled (reg : RedactionRegistry) : Bool := reg.enabled && !reg.patterns.isEmpty

/-- `self.patterns.iter().filter(|p| p.enabled)` -/
def active (reg : RedactionRegistry) : List RedactionPattern := reg.patterns.filter (·.enabled)

def redactStep (st : RedactionResult α) (p : RedactionPattern) : RedactionResult α :=
  let (text, count) := p.apply L st.text
  ⟨text, st.matchCounts ++ (count.map (RedactionMatch.mk p.name)).toList⟩

def redact (reg : RedactionRegistry) (input : List α) : RedactionResult α :=
  if !reg.isEnabled then ⟨input, []⟩ else reg.active.foldl (redactStep L) ⟨input, []⟩

end RedactionRegistry

/-! ### Redaction looks at characters only -/

section Hom

variable {L} {M : Letters β} {f : α → β}

theorem expand_map (h : Hom L M f) (m : RegexMatch) (text : List α) (part : TemplatePart) :
    m.expand M (text.map f) part = (m.expand L text part).map f := by
  cases part with
  | literal s =>
    simp only [RegexMatch.expand, List.map_map]
    exact List.map_congr_left fun c _ => (h.ofChar c).symm
  | group i =>
    simp only [RegexMatch.expand]
    split
    · rw [map_slice]
    · rfl

theorem replaceAll_map (h : Hom L M f) (re : Regex) (text : List α) (replacement : String) :
    re.replaceAll M (text.map f) replacement = (re.replaceAll L text replacement).map f := by
  rw [Regex.replaceAll, Regex.replaceAll, h.map_char, map_splice, List.map_map]
  congr 1
  refine List.map_congr_left fun m _ => ?_
  have hexpand : m.expand M (text.map f) = fun part => (m.expand L text part).map f :=
    funext (expand_map h m text)
  simp only [Function.comp_apply, List.map_flatMap, hexpand]

theorem rebuildCards_map (h : Hom L M f) (text : List α) (replacement : String)
    (found : List (ℕ × ℕ)) (cursor : ℕ) : rebuildCards M (text.map f) replacement found cursor =
      ((rebuildCards L text replacement found cursor).1.map f,
        (rebuildCards L text replacement found cursor).2) := by
  have hreplacement : (replacement.toList.map L.ofChar).map f =
      replacement.toList.map M.ofChar := by
    rw [List.map_map]
    exact List.map_congr_left fun c _ => h.ofChar c
  induction found generalizing cursor with
  | nil => simp [rebuildCards]
  | cons r rest ih =>
    obtain ⟨s, e⟩ := r
    simp only [rebuildCards]
    split
    · exact ih cursor
    · rw [ih e, ← map_slice, h.map_char]
      split
      · simp [map_slice, hreplacement]
      · simp [map_slice]

theorem apply_map (h : Hom L M f) (p : RedactionPattern) (text : List α) :
    p.apply M (text.map f) = ((p.apply L text).1.map f, (p.apply L text).2) := by
  unfold RedactionPattern.apply
  rw [h.map_char]
  cases p.kind with
  | literal =>
    dsimp only
    split
    · rfl
    · rw [replaceAll_map h]
  | creditCardWithLuhn =>
    dsimp only
    split
    · rfl
    · rw [rebuildCards_map h]

theorem foldl_redactStep_map (h : Hom L M f) (patterns : List RedactionPattern)
    (st : RedactionResult α) :
    patterns.foldl (RedactionRegistry.redactStep M) ⟨st.text.map f, st.matchCounts⟩ =
      ⟨(patterns.foldl (RedactionRegistry.redactStep L) st).text.map f,
        (patterns.foldl (RedactionRegistry.redactStep L) st).matchCounts⟩ := by
  induction patterns generalizing st with
  | nil => rfl
  | cons p patterns ih =>
    have hstep : RedactionRegistry.redactStep M ⟨st.text.map f, st.matchCounts⟩ p =
        ⟨(RedactionRegistry.redactStep L st p).text.map f,
          (RedactionRegistry.redactStep L st p).matchCounts⟩ := by
      simp only [RedactionRegistry.redactStep, apply_map h]
    rw [List.foldl_cons, List.foldl_cons, hstep, ih]

/-- The same redaction, whatever the characters carry. -/
theorem redact_map (h : Hom L M f) (reg : RedactionRegistry) (text : List α) :
    (reg.redact M (text.map f)).text = (reg.redact L text).text.map f := by
  unfold RedactionRegistry.redact
  split
  · rfl
  · exact congrArg RedactionResult.text (foldl_redactStep_map h reg.active ⟨text, []⟩)

end Hom

/-! ### Redaction keeps characters of the text and makes up the rest -/

section Mem

variable {L} {x : α} {text : List α}

theorem mem_expand {m : RegexMatch} {part : TemplatePart} (h : x ∈ m.expand L text part) :
    x ∈ text ∨ ∃ c, x = L.ofChar c := by
  cases part with
  | literal s =>
    obtain ⟨c, -, rfl⟩ := List.mem_map.1 h
    exact .inr ⟨c, rfl⟩
  | group i =>
    simp only [RegexMatch.expand] at h
    split at h
    · exact .inl (mem_slice h)
    · cases h

theorem mem_replaceAll {re : Regex} {replacement : String}
    (h : x ∈ re.replaceAll L text replacement) : x ∈ text ∨ ∃ c, x = L.ofChar c := by
  rcases mem_splice h with h | ⟨r, hr, h⟩
  · exact .inl h
  · obtain ⟨m, -, rfl⟩ := List.mem_map.1 hr
    obtain ⟨part, -, hx⟩ := List.mem_flatMap.1 h
    exact mem_expand hx

theorem mem_rebuildCards {replacement : String} {found : List (ℕ × ℕ)} {cursor : ℕ}
    (h : x ∈ (rebuildCards L text replacement found cursor).1) : x ∈ text ∨
    ∃ c, x = L.ofChar c := by
  induction found generalizing cursor with
  | nil => exact .inl (List.mem_of_mem_drop h)
  | cons r rest ih =>
    obtain ⟨s, e⟩ := r
    simp only [rebuildCards] at h
    split at h
    · exact ih h
    · split at h
      · simp only [List.mem_append] at h
        rcases h with (h | h) | h
        · exact .inl (mem_slice h)
        · obtain ⟨c, -, rfl⟩ := List.mem_map.1 h
          exact .inr ⟨c, rfl⟩
        · exact ih h
      · simp only [List.mem_append] at h
        rcases h with (h | h) | h
        · exact .inl (mem_slice h)
        · exact .inl (mem_slice h)
        · exact ih h

theorem mem_apply {p : RedactionPattern} (h : x ∈ (p.apply L text).1) : x ∈ text ∨
    ∃ c, x = L.ofChar c := by
  unfold RedactionPattern.apply at h
  cases hkind : p.kind with
  | literal =>
    simp only [hkind] at h
    split at h
    · exact .inl h
    · exact mem_replaceAll h
  | creditCardWithLuhn =>
    simp only [hkind] at h
    split at h
    · exact .inl h
    · exact mem_rebuildCards h

theorem mem_foldl_redactStep {patterns : List RedactionPattern} {st : RedactionResult α}
    (h : x ∈ (patterns.foldl (RedactionRegistry.redactStep L) st).text) : x ∈ st.text ∨
    ∃ c, x = L.ofChar c := by
  induction patterns generalizing st with
  | nil => exact .inl h
  | cons p patterns ih =>
    rcases ih h with h | h
    · exact mem_apply h
    · exact .inr h

theorem mem_redact {reg : RedactionRegistry} (h : x ∈ (reg.redact L text).text) : x ∈ text ∨
    ∃ c, x = L.ofChar c := by
  unfold RedactionRegistry.redact at h
  split at h
  · exact .inl h
  · exact mem_foldl_redactStep h

end Mem

end Solo
