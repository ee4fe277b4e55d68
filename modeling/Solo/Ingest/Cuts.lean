import Solo.Ingest.Redaction

/-!
# Redacting the two parts of a text

Where each pattern, in its turn, finds in the two parts of a text the matches that it finds in the
whole, redacting the parts is redacting the whole. No match lies across such a cut, and none depends
on what is behind it.
-/

namespace Solo

open Letters

/-- A match in the second part, in the two together. -/
def RegexMatch.shift (n : ℕ) (m : RegexMatch) : RegexMatch :=
  ⟨n + m.start, n + m.stop, m.groups.map (Option.map fun g => (n + g.1, n + g.2))⟩

/-- Matches and their groups lie in the text. -/
def Regex.Within (re : Regex) : Prop :=
  ∀ cs, ∀ m ∈ re.capturesIter cs, m.start ≤ m.stop ∧ m.stop ≤ cs.length ∧
    ∀ g ∈ m.groups, ∀ r ∈ g, r.2 ≤ cs.length

/-- The matches in two texts joined are those in the one and those in the other. -/
def Regex.SplitsAt (re : Regex) (as bs : List Char) : Prop :=
  re.capturesIter (as ++ bs) = re.capturesIter as ++
    (re.capturesIter bs).map (RegexMatch.shift as.length)

instance (re : Regex) (as bs : List Char) : Decidable (re.SplitsAt as bs) :=
  inferInstanceAs (Decidable (_ = _))

section Parts

variable {α : Type} (L : Letters α)

/-- Each pattern in its turn, on what the ones before it left of the two parts. -/
def SplitsAt : List RedactionPattern → List α → List α → Prop
  | [], _, _ => True
  | p :: patterns, as, bs =>
    p.regex.SplitsAt (as.map L.char) (bs.map L.char) ∧
      SplitsAt patterns (p.apply L as).1 (p.apply L bs).1

instance decidableSplitsAt : (patterns : List RedactionPattern) → (as bs : List α) →
    Decidable (SplitsAt L patterns as bs)
  | [], _, _ => .isTrue trivial
  | _ :: patterns, _, _ =>
    have := decidableSplitsAt patterns
    inferInstanceAs (Decidable (_ ∧ _))

variable {L} {p : RedactionPattern} {as bs : List α}

theorem expand_left {m : RegexMatch} (hm : ∀ g ∈ m.groups, ∀ r ∈ g, r.2 ≤ as.length)
    (part : TemplatePart) : m.expand L (as ++ bs) part = m.expand L as part := by
  cases part with
  | literal s => rfl
  | group i =>
    simp only [RegexMatch.expand]
    cases hg : m.groups[i]? with
    | none => rfl
    | some g =>
      cases g with
      | none => rfl
      | some r => exact slice_append_left (hm _ (List.mem_of_getElem? hg) r rfl)

theorem expand_shift (as bs : List α) (m : RegexMatch) (part : TemplatePart) :
    (m.shift as.length).expand L (as ++ bs) part = m.expand L bs part := by
  cases part with
  | literal s => rfl
  | group i =>
    simp only [RegexMatch.expand, RegexMatch.shift, List.getElem?_map]
    cases m.groups[i]? with
    | none => rfl
    | some g =>
      cases g with
      | none => rfl
      | some r => exact slice_append_right as bs r.1 r.2

theorem replaceAll_append {re : Regex} (hre : re.Within)
    (h : re.SplitsAt (as.map L.char) (bs.map L.char)) (replacement : String) :
    re.replaceAll L (as ++ bs) replacement = re.replaceAll L as replacement ++
    re.replaceAll L bs replacement := by
  have hlen : (as.map L.char).length = as.length := List.length_map _
  unfold Regex.replaceAll
  rw [List.map_append, h, List.map_append, List.map_map]
  have hleft : ((re.capturesIter (as.map L.char)).map fun m =>
        (m.start, m.stop, (re.template replacement).flatMap (m.expand L (as ++ bs)))) =
      (re.capturesIter (as.map L.char)).map fun m =>
        (m.start, m.stop, (re.template replacement).flatMap (m.expand L as)) := by
    refine List.map_congr_left fun m hm => ?_
    obtain ⟨-, -, hgroups⟩ := hre _ m hm
    rw [hlen] at hgroups
    rw [funext (expand_left hgroups)]
  have hright : ((re.capturesIter (bs.map L.char)).map ((fun m : RegexMatch =>
        (m.start, m.stop, (re.template replacement).flatMap (m.expand L (as ++ bs)))) ∘
          RegexMatch.shift (as.map L.char).length)) =
      ((re.capturesIter (bs.map L.char)).map fun m =>
        (m.start, m.stop, (re.template replacement).flatMap (m.expand L bs))).map
          (shiftRange as.length) := by
    rw [List.map_map, hlen]
    refine List.map_congr_left fun m _ => ?_
    simp only [Function.comp_apply, shiftRange, RegexMatch.shift, Prod.mk.injEq, true_and]
    exact congrArg (List.flatMap · (re.template replacement)) (funext (expand_shift as bs m))
  rw [hleft, hright]
  refine splice_append bs (Nat.zero_le _) (fun r hr => ?_) _
  obtain ⟨m, hm, rfl⟩ := List.mem_map.1 hr
  obtain ⟨hle, hstop, -⟩ := hre _ m hm
  rw [hlen] at hstop
  exact ⟨Nat.le_trans hle hstop, hstop⟩

theorem rebuildCards_right (as bs : List α) (replacement : String) (found : List (ℕ × ℕ))
    (cursor : ℕ) :
    rebuildCards L (as ++ bs) replacement (found.map fun r => (as.length + r.1, as.length + r.2))
    (as.length + cursor) =
      rebuildCards L bs replacement found cursor := by
  induction found generalizing cursor with
  | nil => simp only [List.map_nil, rebuildCards, List.drop_length_add_append]
  | cons r rest ih =>
    obtain ⟨s, e⟩ := r
    simp only [List.map_cons, rebuildCards, Nat.add_lt_add_iff_left, ih, slice_append_right]

theorem rebuildCards_append {replacement : String} {found : List (ℕ × ℕ)} {cursor : ℕ}
    (hcursor : cursor ≤ as.length)
    (hfound : ∀ r ∈ found, r.1 ≤ as.length ∧ r.2 ≤ as.length) (found' : List (ℕ × ℕ)) :
    (rebuildCards L (as ++ bs)
      replacement (found ++ found'.map fun r => (as.length + r.1, as.length + r.2)) cursor).1 =
      (rebuildCards L as replacement found cursor).1 ++
      (rebuildCards L bs replacement found' 0).1 := by
  induction found generalizing cursor with
  | nil =>
    cases found' with
    | nil => exact List.drop_append_of_le_length hcursor
    | cons r rest =>
      obtain ⟨s, e⟩ := r
      have hnot : ¬ as.length + s < cursor := by omega
      simp only [List.nil_append, List.map_cons, rebuildCards, if_neg hnot, rebuildCards_right,
        slice_append_right, slice_append_across bs s hcursor, Nat.not_lt_zero, if_false]
      split <;> simp only [List.append_assoc]
  | cons r rest ih =>
    obtain ⟨s, e⟩ := r
    rw [List.forall_mem_cons] at hfound
    simp only [List.cons_append, rebuildCards]
    split
    · exact ih hcursor hfound.2
    · rw [slice_append_left hfound.1.2, slice_append_left hfound.1.1]
      have hrest := ih hfound.1.2 hfound.2
      split <;> simp only [hrest, List.append_assoc]

/-- A pattern on the two parts. -/
theorem apply_append (hre : p.regex.Within) (h : p.regex.SplitsAt (as.map L.char) (bs.map L.char)) :
    (p.apply L (as ++ bs)).1 = (p.apply L as).1 ++ (p.apply L bs).1 := by
  have hliteral (text : List α) : p.kind = .literal →
      (p.apply L text).1 = p.regex.replaceAll L text p.replacement := by
    intro hkind
    unfold RedactionPattern.apply
    rw [hkind]
    dsimp only
    split
    · next hempty =>
      rw [Regex.replaceAll, List.isEmpty_iff.1 hempty]
      rfl
    · rfl
  have hcards (text : List α) : p.kind = .creditCardWithLuhn → (p.apply L text).1 =
      (rebuildCards L text p.replacement
        ((p.regex.capturesIter (text.map L.char)).map fun m => (m.start, m.stop)) 0).1 := by
    intro hkind
    unfold RedactionPattern.apply
    rw [hkind]
    dsimp only
    split
    · next hempty =>
      rw [List.isEmpty_iff.1 hempty]
      rfl
    · rfl
  cases hkind : p.kind with
  | literal => rw [hliteral _ hkind, hliteral _ hkind, hliteral _ hkind, replaceAll_append hre h]
  | creditCardWithLuhn =>
    have hlen : (as.map L.char).length = as.length := List.length_map _
    rw [hcards _ hkind, hcards _ hkind, hcards _ hkind, List.map_append, h, List.map_append,
      List.map_map, hlen]
    have hshift :
        ((p.regex.capturesIter (bs.map L.char)).map ((fun m : RegexMatch => (m.start, m.stop)) ∘
          RegexMatch.shift as.length)) =
        ((p.regex.capturesIter (bs.map L.char)).map fun m => (m.start, m.stop)).map fun r =>
          (as.length + r.1, as.length + r.2) := by
      rw [List.map_map]
      rfl
    rw [hshift]
    refine rebuildCards_append (Nat.zero_le _) (fun r hr => ?_) _
    obtain ⟨m, hm, rfl⟩ := List.mem_map.1 hr
    obtain ⟨hle, hstop, -⟩ := hre _ m hm
    rw [hlen] at hstop
    exact ⟨Nat.le_trans hle hstop, hstop⟩

theorem foldl_redactStep_append {patterns : List RedactionPattern}
    (hre : ∀ p ∈ patterns, p.regex.Within)
    (h : SplitsAt L patterns as bs) (counts counts₁ counts₂ : List RedactionMatch) :
    (patterns.foldl (RedactionRegistry.redactStep L) ⟨as ++ bs, counts⟩).text =
      (patterns.foldl (RedactionRegistry.redactStep L) ⟨as, counts₁⟩).text ++
        (patterns.foldl (RedactionRegistry.redactStep L) ⟨bs, counts₂⟩).text := by
  induction patterns generalizing as bs counts counts₁ counts₂ with
  | nil => rfl
  | cons p patterns ih =>
    rw [List.forall_mem_cons] at hre
    simp only [List.foldl_cons, RedactionRegistry.redactStep]
    rw [apply_append hre.1 h.1]
    exact ih hre.2 h.2 _ _ _

/-- Redacting the parts is redacting the whole. -/
theorem redact_append {reg : RedactionRegistry} (hre : ∀ p ∈ reg.active, p.regex.Within)
    (h : SplitsAt L reg.active as bs) :
    (reg.redact L (as ++ bs)).text = (reg.redact L as).text ++ (reg.redact L bs).text := by
  unfold RedactionRegistry.redact
  split
  · rfl
  · exact foldl_redactStep_append hre h _ _ _

/-- A cut is a matter of the characters alone. -/
theorem splitsAt_map {β : Type} {M : Letters β} {f : α → β} (h : Hom L M f)
    (patterns : List RedactionPattern)
    (as bs : List α) : SplitsAt M patterns (as.map f) (bs.map f) ↔ SplitsAt L patterns as bs := by
  induction patterns generalizing as bs with
  | nil => exact Iff.rfl
  | cons p patterns ih =>
    simp only [SplitsAt]
    rw [h.map_char, h.map_char, apply_map h, apply_map h, ih]

end Parts

end Solo
