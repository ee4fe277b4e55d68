import Solo.Derived.GatesAgree

/-!
# Entity ids as canonical forms (`canonical_entity_id`)

The id of a label is a slug of its words, so it is its own id. Labels of the same words have the
same id exactly when both or neither carry `ent:` in front: the prefix is a marker, and it is taken
off in this spelling only.
-/

namespace Solo

open Text

def isEntitySep (c : Char) : Bool :=
  isWhitespace c || c = '_' || c = '-' || c = '.' || c = '/' || c = '\\'

/-- The words between separators, whatever runs join them. -/
def entityWords (s : String) : List (List Char) := (s.toList.splitOnP isEntitySep).filter (· ≠ [])

/-- The same words up to ASCII case. -/
def SameWords (s t : String) : Prop :=
  (entityWords s).map toAsciiLowercase = (entityWords t).map toAsciiLowercase

instance (s t : String) : Decidable (SameWords s t) :=
  inferInstanceAs
    (Decidable ((entityWords s).map toAsciiLowercase = (entityWords t).map toAsciiLowercase))

/-- The label before its prefix is taken off. -/
def trimmedLabel (raw : String) : List Char := trimMatches isLabelQuote (trimList raw.toList)

/-- `clean_label` takes a prefix off. -/
def HasEntPrefix (raw : String) : Prop := startsWith (trimmedLabel raw) "ent:" = true

instance (raw : String) : Decidable (HasEntPrefix raw) :=
  inferInstanceAs (Decidable (startsWith (trimmedLabel raw) "ent:" = true))

/-! ### Letters and separators -/

theorem isWhitespace_of_isAlphanum {c : Char} (h : c.isAlphanum = true) :
    isWhitespace c = false := by
  have hall :=
    forall_ascii (p := fun c => !c.isAlphanum || !isWhitespace c) (by decide) (isAlphanum_toNat h)
  simpa [h] using hall

theorem isEntitySep_of_isAlphanum {c : Char} (h : c.isAlphanum = true) : isEntitySep c = false := by
  have hall :=
    forall_ascii (p := fun c => !c.isAlphanum || !isEntitySep c) (by decide) (isAlphanum_toNat h)
  simpa [h] using hall

theorem isLabelQuote_of_isAlphanum {c : Char} (h : c.isAlphanum = true) :
    isLabelQuote c = false := by
  have hall :=
    forall_ascii (p := fun c => !c.isAlphanum || !isLabelQuote c) (by decide) (isAlphanum_toNat h)
  simpa [h] using hall

/-- What is kept of a word does not depend on its case. -/
theorem keep_toAsciiLowercase (w : List Char) : keep (toAsciiLowercase w) = keep w := by
  have hlower (c : Char) : c.toLower.toLower = c.toLower := by
    cases hc : c.isAlphanum with
    | true => exact toLower_of_isSlugChar (isSlugChar_toLower hc)
    | false => rw [toLower_of_not_isAlphanum hc, toLower_of_not_isAlphanum hc]
  induction w with
  | nil => rfl
  | cons c w ih =>
    unfold keep toAsciiLowercase at ih ⊢
    rw [List.map_cons]
    by_cases hc : c.isAlphanum = true
    · rw [List.filter_cons_of_pos (by rwa [isAlphanum_toLower]), List.filter_cons_of_pos hc,
        List.map_cons, ih, hlower, List.map_cons]
    · rw [List.filter_cons_of_neg (by rwa [isAlphanum_toLower]), List.filter_cons_of_neg hc, ih]

/-! ### The words of a label -/

/-- The words of the slug of a text. -/
def idWords (cs : List Char) : List (List Char) := slugWords isEntitySep [] cs

theorem idWords_trimMatches {p : Char → Bool} (hp : ∀ c, c.isAlphanum = true → p c = false)
    (cs : List Char) : idWords (trimMatches p cs) = idWords cs :=
  slugWords_trimMatches (fun c hc => by
    by_contra halpha
    rw [hp c (by simpa using halpha)] at hc
    cases hc) cs

theorem idWords_trimmedLabel (raw : String) : idWords (trimmedLabel raw) = idWords raw.toList := by
  rw [trimmedLabel, idWords_trimMatches fun _ => isLabelQuote_of_isAlphanum, trimList,
    idWords_trimMatches fun _ => isWhitespace_of_isAlphanum]

/-- The words of a slug are those of its text, without what is not a letter or a digit. -/
theorem idWords_eq (s : String) :
    idWords s.toList = ((entityWords s).map keep).filter (· ≠ []) := by
  obtain ⟨k, rest, hpieces, hwords⟩ :=
    slugWords_eq isEntitySep (fun _ => isEntitySep_of_isAlphanum) s.toList
  rw [idWords, hwords, List.nil_append, ← List.filter_append, List.singleton_append, ← hpieces,
    entityWords]
  generalize s.toList.splitOnP isEntitySep = pieces
  induction pieces with
  | nil => rfl
  | cons p pieces ih =>
    by_cases hp : p = []
    · rw [hp, List.filter_cons_of_neg (by simp), List.map_cons,
        List.filter_cons_of_neg (by simp [keep]), ih]
    · rw [List.filter_cons_of_pos (by simpa using hp), List.map_cons, List.map_cons,
        List.filter_cons, ih, List.filter_cons]

theorem idWords_congr {s t : String} (h : SameWords s t) : idWords s.toList = idWords t.toList := by
  have hkeep (ws : List (List Char)) : (ws.map toAsciiLowercase).map keep = ws.map keep := by
    rw [List.map_map]
    exact List.map_congr_left fun w _ => keep_toAsciiLowercase w
  rw [idWords_eq, idWords_eq, ← hkeep, ← hkeep (entityWords t), h]

/-! ### The prefix -/

/-- Taking `ent:` off takes three letters from the first word. -/
theorem idWords_ent (rest : List Char) : ∃ k ws, idWords ("ent:".toList ++ rest) =
    ("ent".toList ++ k) :: ws ∧ idWords rest = [k].filter (· ≠ []) ++ ws := by
  obtain ⟨k, ws, -, hwords⟩ := slugWords_eq isEntitySep (fun _ => isEntitySep_of_isAlphanum) rest
  have hopen : idWords ("ent:".toList ++ rest) = slugWords isEntitySep "ent".toList rest := rfl
  refine ⟨k, ws.filter (· ≠ []), ?_, by rw [idWords, hwords, List.nil_append]⟩
  rw [hopen, hwords, List.filter_cons_of_pos (by simp), List.filter_nil, List.singleton_append]

/-- The words of the id, from those of the label. -/
def withoutEnt : List (List Char) → List (List Char)
  | [] => []
  | w :: ws => [w.drop 3].filter (· ≠ []) ++ ws

theorem idWords_cleanLabel (raw : String) :
    idWords (cleanLabel raw).toList = if HasEntPrefix raw then withoutEnt (idWords raw.toList)
    else idWords raw.toList := by
  have hlabel : idWords (cleanLabel raw).toList =
      idWords ((stripPrefix? (trimmedLabel raw) "ent:").getD (trimmedLabel raw)) := by
    rw [cleanLabel, String.toList_ofList, trimList, idWords_trimMatches fun _ =>
      isWhitespace_of_isAlphanum]
    rfl
  rw [hlabel, stripPrefix?, ← idWords_trimmedLabel]
  by_cases hpre : HasEntPrefix raw
  · obtain ⟨rest, hrest⟩ := List.isPrefixOf_iff_prefix.1 hpre
    obtain ⟨k, ws, hword, hwords⟩ := idWords_ent rest
    rw [if_pos (show startsWith (trimmedLabel raw) "ent:" = true from hpre), if_pos hpre,
      Option.getD_some, ← hrest, List.drop_left, hword, hwords]
    rfl
  · rw [if_neg (show ¬ startsWith (trimmedLabel raw) "ent:" = true from hpre), if_neg hpre,
      Option.getD_none]

/-- The first word of a label with the prefix. -/
theorem idWords_of_hasEntPrefix {raw : String} (h : HasEntPrefix raw) :
    ∃ k ws, idWords raw.toList = ("ent".toList ++ k) :: ws := by
  obtain ⟨rest, hrest⟩ := List.isPrefixOf_iff_prefix.1 h
  obtain ⟨k, ws, hword, -⟩ := idWords_ent rest
  exact ⟨k, ws, by rw [← idWords_trimmedLabel, ← hrest, hword]⟩

theorem canonicalEntityId_eq (raw : String) :
    canonicalEntityId raw = String.ofList (['-'].intercalate (idWords (cleanLabel raw).toList)) :=
  congrArg String.ofList (slug_eq_intercalate rfl _)

/-- Three letters less make another id. -/
theorem intercalate_withoutEnt_ne (k : List Char) (ws : List (List Char)) :
    ['-'].intercalate (withoutEnt (("ent".toList ++ k) :: ws)) ≠
    ['-'].intercalate (("ent".toList ++ k) :: ws) := by
  intro heq
  have hlen := congrArg List.length heq
  have hdrop : ("ent".toList ++ k).drop 3 = k := rfl
  rw [withoutEnt, hdrop] at hlen
  by_cases hk : k = []
  · subst hk
    cases ws with
    | nil => simp at hlen
    | cons w ws =>
      simp at hlen
      omega
  · rw [List.filter_cons_of_pos (by simpa using hk), List.filter_nil, List.singleton_append] at hlen
    cases ws with
    | nil =>
      simp at hlen
      omega
    | cons w ws =>
      simp at hlen
      omega

theorem canonicalEntityId_eq_iff {s t : String} (h : SameWords s t) :
    canonicalEntityId s = canonicalEntityId t ↔ (HasEntPrefix s ↔ HasEntPrefix t) := by
  rw [canonicalEntityId_eq, canonicalEntityId_eq, String.ofList_inj, idWords_cleanLabel,
    idWords_cleanLabel, idWords_congr h]
  by_cases hs : HasEntPrefix s <;> by_cases ht : HasEntPrefix t
  · simp [hs, ht]
  · obtain ⟨k, ws, hwords⟩ := idWords_of_hasEntPrefix hs
    rw [if_pos hs, if_neg ht, ← idWords_congr h, hwords]
    simp only [intercalate_withoutEnt_ne k ws, false_iff]
    exact fun hiff => ht (hiff.1 hs)
  · obtain ⟨k, ws, hwords⟩ := idWords_of_hasEntPrefix ht
    rw [if_neg hs, if_pos ht, hwords]
    simp only [(intercalate_withoutEnt_ne k ws).symm, false_iff]
    exact fun hiff => hs (hiff.2 ht)
  · simp [hs, ht]

/-! ### Canonical forms -/

/-- Ids are slugs and their own ids; labels of the same words agree exactly when they agree on the
prefix. -/
structure CanonicalIds : Prop where
  idempotent : ∀ s, canonicalEntityId (canonicalEntityId s) = canonicalEntityId s
  slug : ∀ s, canonicalEntityId s = "" ∨ IsSlug '-' (canonicalEntityId s).toList
  words : ∀ s t, SameWords s t →
    (canonicalEntityId s = canonicalEntityId t ↔ (HasEntPrefix s ↔ HasEntPrefix t))

theorem canonicalEntityId_canonical : CanonicalIds where
  idempotent s := by
    by_cases hs : canonicalEntityId s = ""
    · rw [hs]
      rfl
    · exact canonicalEntityId_of_isSlug (canonicalEntityId_isSlug hs)
  slug s := or_iff_not_imp_left.2 canonicalEntityId_isSlug
  words _ _ h := canonicalEntityId_eq_iff h

/-- The prefix in capitals stays. -/
theorem canonicalEntityId_capitals :
    SameWords "ent:ada" "ENT:ada" ∧ canonicalEntityId "ent:ada" = "ada" ∧
    canonicalEntityId "ENT:ada" = "entada" := by
  decide

end Solo
