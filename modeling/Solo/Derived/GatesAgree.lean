import Solo.Lib.Slug
import Solo.Derived.Quality

/-!
# The two quality gates on one fact

`evaluateExtractedTriple` looks at the cleaned labels of a triple and stores canonical ids;
`activeTripleReviewReason` looks at what is stored. `activeFact_clean_iff`: a fact that the first
gate lets through is clean to the second one exactly when the chatter and commit checks, which the
first gate made on the labels, also come out clean on the ids, and a literal that a second cleaning
would change passes its checks after that cleaning. A canonical id is never a blob, a path or a
branch.
-/

namespace Solo

open Text

/-! ### Canonical texts -/

/-- A separator that `clean_label` leaves alone. -/
def PlainSep (sep : Char) : Prop :=
  sep.isAlphanum = false ∧ isWhitespace sep = false ∧ isLabelQuote sep = false ∧ sep ≠ ':'

theorem plainSep_hyphen : PlainSep '-' := ⟨rfl, rfl, rfl, by decide⟩

theorem plainSep_underscore : PlainSep '_' := ⟨rfl, rfl, rfl, by decide⟩

section Slug

variable {sep : Char} {s : String}

theorem isSlugChar_plainSep (hsep : PlainSep sep) : isSlugChar sep = false := by
  by_contra hc
  have halpha := isAlphanum_of_isSlugChar (Bool.not_eq_false _ ▸ hc)
  rw [hsep.1] at halpha
  cases halpha

/-- A slug has no character that is no word character, other than its separator. -/
theorem not_mem_slug (h : IsSlug sep s.toList) {c : Char} (hc : isSlugChar c = false)
    (hne : c ≠ sep) : c ∉ s.toList := by
  intro hmem
  rcases h.mem hmem with hword | rfl
  · rw [hc] at hword
    cases hword
  · exact hne rfl

theorem isLabelQuote_of_isSlugChar {c : Char} (h : isSlugChar c = true) :
    isLabelQuote c = false := by
  have hrange := isSlugChar_toNat h
  have hne (d : Char) (hd : isSlugChar d = false) : c ≠ d := ne_of_isSlugChar h hd
  have hquote : c.toNat ≠ 96 := by omega
  simp [isLabelQuote, hquote, hne '"' rfl, hne '\'' rfl, hne '[' rfl, hne ']' rfl, hne '(' rfl,
    hne ')' rfl]

theorem cleanLabel_of_isSlug (hsep : PlainSep sep) (h : IsSlug sep s.toList) :
    cleanLabel s = s := by
  have hspace : trimList s.toList = s.toList := by
    refine trimMatches_eq_self fun c hc => ?_
    rcases h.mem hc with hword | rfl
    · exact isWhitespace_of_isSlugChar hword
    · exact hsep.2.1
  have hquote : trimMatches isLabelQuote s.toList = s.toList := by
    refine trimMatches_eq_self fun c hc => ?_
    rcases h.mem hc with hword | rfl
    · exact isLabelQuote_of_isSlugChar hword
    · exact hsep.2.2.1
  have hprefix : stripPrefix? s.toList "ent:" = none := by
    refine if_neg fun hstart => ?_
    have hcolon : ':' ∈ s.toList := (List.isPrefixOf_iff_prefix.1 hstart).subset (by decide)
    exact not_mem_slug h rfl hsep.2.2.2.symm hcolon
  dsimp only [cleanLabel]
  rw [hspace, hquote, hprefix, Option.getD_none, hspace, String.ofList_toList]

end Slug

theorem canonicalEntityId_isSlug {raw : String} (h : canonicalEntityId raw ≠ "") :
    IsSlug '-' (canonicalEntityId raw).toList := by
  unfold canonicalEntityId at h ⊢
  rw [String.toList_ofList]
  rcases slug_isSlug (isSlugChar_plainSep plainSep_hyphen) _ with hnil | hslug
  · rw [hnil] at h
    exact absurd rfl h
  · exact hslug

theorem normalizePredicate_isSlug {raw : String} (h : normalizePredicate raw ≠ "") :
    IsSlug '_' (normalizePredicate raw).toList := by
  unfold normalizePredicate at h ⊢
  rw [String.toList_ofList]
  rcases slug_isSlug (isSlugChar_plainSep plainSep_underscore) _ with hnil | hslug
  · rw [hnil] at h
    exact absurd rfl h
  · exact hslug

theorem canonicalEntityId_of_isSlug {s : String} (h : IsSlug '-' s.toList) :
    canonicalEntityId s = s := by
  unfold canonicalEntityId
  rw [cleanLabel_of_isSlug plainSep_hyphen h, slug_of_isSlug plainSep_hyphen.1 (by decide) h,
    String.ofList_toList]

theorem normalizePredicate_of_isSlug {s : String} (h : IsSlug '_' s.toList) :
    normalizePredicate s = s := by
  have hspace : trimList s.toList = s.toList := by
    refine trimMatches_eq_self fun c hc => ?_
    rcases h.mem hc with hword | rfl
    · exact isWhitespace_of_isSlugChar hword
    · rfl
  unfold normalizePredicate
  rw [hspace, slug_of_isSlug plainSep_underscore.1 (by decide) h, String.ofList_toList]

/-! ### What a canonical id is not -/

theorem startsWith_eq_false {cs : List Char} {pre : String} {c : Char} (hpre : c ∈ pre.toList)
    (hc : c ∉ cs) : startsWith cs pre = false := by
  rw [startsWith, Bool.eq_false_iff]
  exact fun h => hc ((List.isPrefixOf_iff_prefix.1 h).subset hpre)

theorem contains_eq_false {cs : List Char} {needle : String} {c : Char}
    (hneedle : c ∈ needle.toList) (hc : c ∉ cs) : contains cs needle = false := by
  induction cs with
  | nil => simpa [contains] using List.ne_nil_of_mem hneedle
  | cons d cs ih =>
    rw [contains, startsWith_eq_false hneedle hc, ih fun h => hc (List.mem_cons_of_mem _ h),
      Bool.false_or]

section EntityId

variable {s : String}

theorem trimList_entityId (h : IsSlug '-' s.toList) : trimList s.toList = s.toList := by
  refine trimMatches_eq_self fun c hc => ?_
  rcases h.mem hc with hword | rfl
  · exact isWhitespace_of_isSlugChar hword
  · rfl

theorem toAsciiLowercase_entityId (h : IsSlug '-' s.toList) :
    toAsciiLowercase s.toList = s.toList := by
  refine (List.map_congr_left fun c hc => ?_).trans (List.map_id _)
  rcases h.mem hc with hword | rfl
  · exact toLower_of_isSlugChar hword
  · rfl

theorem looksLikeLongUnderscoreBlob_entityId (h : IsSlug '-' s.toList) :
    looksLikeLongUnderscoreBlob s = false := by
  have hcount : s.toList.countP (· = '_') = 0 := by
    rw [List.countP_eq_zero]
    rintro c hc hu
    rw [decide_eq_true_iff] at hu
    subst hu
    exact not_mem_slug h rfl (by decide) hc
  simp [looksLikeLongUnderscoreBlob, hcount]

theorem looksLikeBranchRef_entityId (h : IsSlug '-' s.toList) : looksLikeBranchRef s = false := by
  have hslash : '/' ∉ s.toList := not_mem_slug h rfl (by decide)
  unfold looksLikeBranchRef
  rw [trimList_entityId h, toAsciiLowercase_entityId h, List.any_eq_false]
  intro pre hpre
  rw [Bool.not_eq_true]
  refine startsWith_eq_false (c := '/') ?_ hslash
  revert pre
  decide

theorem not_mem_utf8_entityId (h : IsSlug '-' s.toList) : '\\'.toNat ∉ utf8 s.toList := by
  intro hmem
  obtain ⟨c, hc, hbyte⟩ := List.mem_flatMap.1 hmem
  rcases h.mem hc with hword | rfl
  · have hrange := isSlugChar_toNat hword
    have hascii : utf8Char c = [c.toNat] := if_pos (by omega)
    rw [hascii, List.mem_singleton] at hbyte
    have hback : c.toNat = 92 := hbyte.symm
    omega
  · revert hbyte
    decide

theorem looksLikePathOrUrl_entityId (h : IsSlug '-' s.toList) : looksLikePathOrUrl s = false := by
  have hslash : '/' ∉ s.toList := not_mem_slug h rfl (by decide)
  have hback : '\\' ∉ s.toList := not_mem_slug h rfl (by decide)
  have hbyte : (utf8 s.toList)[2]? ≠ some '\\'.toNat := fun hget =>
    not_mem_utf8_entityId h (List.mem_of_getElem? hget)
  have hstart (pre : String) (hpre : '/' ∈ pre.toList ∨ '\\' ∈ pre.toList) :
      startsWith s.toList pre = false :=
    hpre.elim (startsWith_eq_false · hslash) (startsWith_eq_false · hback)
  unfold looksLikePathOrUrl
  dsimp only
  rw [trimList_entityId h, toAsciiLowercase_entityId h, hstart "http://" (by decide),
    hstart "https://" (by decide),
    hstart "file://" (by decide), hstart "mcp://" (by decide), hstart "/" (by decide),
    hstart "./" (by decide),
    hstart "../" (by decide), hstart ".\\" (by decide), hstart "..\\" (by decide),
    contains_eq_false (c := '\\') (by decide) hback]
  rw [decide_eq_false (p := (utf8 s.toList)[2]? = some '\\'.toNat) hbyte]
  simp

theorem isMetadataValue_entityId (h : IsSlug '-' s.toList) :
    isMetadataValue s = looksLikeCommitHash s := by
  rw [isMetadataValue, looksLikePathOrUrl_entityId h, looksLikeBranchRef_entityId h, Bool.false_or,
    Bool.or_false]

end EntityId

/-- A useful predicate is too short for a blob. -/
theorem looksLikeLongUnderscoreBlob_usefulPredicate {p : String} (h : usefulPredicate p = true) :
    looksLikeLongUnderscoreBlob p = false := by
  have hlen : p.toList.length ≤ 64 := by
    simp only [usefulPredicate, Bool.and_eq_true, decide_eq_true_eq] at h
    exact h.1.2
  exact if_pos (by omega)

/-! ### Facts that the first gate stores -/

/-- The object is stored as an entity. -/
def StoredAsEntity (triple : Triple) : Prop :=
  triple.objectKind = .entity ∧ objectIsMetadataLiteral (cleanLabel triple.objectId) = false

/-- The checks of a literal object. -/
structure LiteralClean (predicate object : String) : Prop where
  chatter : looksLikeAssistantOrToolChatter object = false
  useful : usefulLiteral object = true
  review : literalReviewReason "" predicate object false = none

/-- What the ingest gate has seen of a triple that it lets through. -/
structure Admitted (triple : Triple) (t : ActiveTriple) : Prop where
  common : commonReviewReason (cleanLabel triple.subjectId) (cleanLabel triple.predicate)
    (cleanLabel triple.objectId) triple.confidence = none
  confidence : t.confidence = triple.confidence
  subject : t.subjectId = canonicalEntityId (cleanLabel triple.subjectId) ∧ t.subjectId ≠ ""
  predicate : t.predicate = normalizePredicate (cleanLabel triple.predicate) ∧
    usefulPredicate t.predicate = true
  object : StoredAsEntity triple ∧ t.objectKind = .entity ∧
      t.objectId = canonicalEntityId (cleanLabel triple.objectId) ∧ t.objectId ≠ "" ∨
    ¬ StoredAsEntity triple ∧ t.objectKind = .literal ∧ t.objectId = cleanLabel triple.objectId ∧
      LiteralClean t.predicate t.objectId

theorem commonReviewReason_eq_none {subject predicate object : String} {confidence : Float32} :
    commonReviewReason subject predicate object confidence = none ↔
      (subject ≠ "" ∧ predicate ≠ "" ∧ object ≠ "") ∧
      (looksLikeAssistantOrToolChatter subject = false ∧ looksLikeAssistantOrToolChatter predicate =
        false ∧ looksLikeAssistantOrToolChatter object = false) ∧
      ¬ confidence < minActiveTripleConfidence ∧
      (looksLikeLongUnderscoreBlob subject = false ∧ looksLikeLongUnderscoreBlob predicate = false ∧
        looksLikeLongUnderscoreBlob object = false) ∧
      subjectIsMetadataValue subject = false := by
  unfold commonReviewReason
  split
  · next h =>
    simp only [Bool.or_eq_true, String.isEmpty_iff] at h
    refine ⟨(by rintro ⟨⟩), fun ⟨hne, _⟩ => ?_⟩
    rcases h with (h | h) | h
    · exact absurd h hne.1
    · exact absurd h hne.2.1
    · exact absurd h hne.2.2
  next hne =>
  split
  · next h =>
    simp only [Bool.or_eq_true] at h
    refine ⟨(by rintro ⟨⟩), fun ⟨_, hc, _⟩ => ?_⟩
    simp [hc.1, hc.2.1, hc.2.2] at h
  next hchatter =>
  split
  · next h => exact ⟨(by rintro ⟨⟩), fun ⟨_, _, hc, _⟩ => absurd h hc⟩
  next hconf =>
  split
  · next h =>
    refine ⟨(by rintro ⟨⟩), fun ⟨_, _, _, hc, _⟩ => ?_⟩
    simp [hc.1, hc.2.1, hc.2.2] at h
  next hblob =>
  split
  · next h =>
    refine ⟨(by rintro ⟨⟩), fun ⟨_, _, _, _, hc⟩ => ?_⟩
    rw [hc] at h
    cases h
  next hmeta =>
    simp only [Bool.or_eq_true, String.isEmpty_iff, not_or, Bool.not_eq_true]
      at hne hchatter hblob hmeta
    exact ⟨fun _ => ⟨⟨hne.1.1, hne.1.2, hne.2⟩, ⟨hchatter.1.1, hchatter.1.2, hchatter.2⟩, hconf,
      ⟨hblob.1.1, hblob.1.2, hblob.2⟩, hmeta⟩, fun _ => rfl⟩

theorem evaluateObject_eq_ok {triple : Triple} {objectId : String} {objectAlias : Option String}
    {kind : ObjectKind}
    (h : evaluateObject triple (cleanLabel triple.objectId) = .ok (objectId, objectAlias, kind)) :
    StoredAsEntity triple ∧ kind = .entity ∧
    objectId = canonicalEntityId (cleanLabel triple.objectId) ∧ objectId ≠ "" ∨
      ¬ StoredAsEntity triple ∧ kind = .literal ∧ objectId = cleanLabel triple.objectId := by
  unfold evaluateObject at h
  split at h
  · next hkind =>
    split at h
    · next hmeta =>
      obtain ⟨hid, -, rfl⟩ : _ ∧ _ ∧ _ := by simpa only [Except.ok.injEq, Prod.mk.injEq] using h
      refine .inr ⟨fun hstored => ?_, rfl, hid.symm⟩
      rw [hstored.2] at hmeta
      cases hmeta
    · next hmeta =>
      dsimp only at h
      split at h
      · cases h
      · next hne =>
        obtain ⟨hid, -, rfl⟩ : _ ∧ _ ∧ _ := by simpa only [Except.ok.injEq, Prod.mk.injEq] using h
        refine .inl ⟨⟨hkind, Bool.not_eq_true _ ▸ hmeta⟩, rfl, hid.symm, fun hempty => hne ?_⟩
        rw [hid, hempty]
        rfl
  · next hkind =>
    obtain ⟨hid, -, rfl⟩ : _ ∧ _ ∧ _ := by simpa only [Except.ok.injEq, Prod.mk.injEq] using h
    refine .inr ⟨fun hstored => ?_, rfl, hid.symm⟩
    rw [hstored.1] at hkind
    cases hkind

/-- Without `literal_only_subject` the subject plays no part. -/
theorem literalReviewReason_subject (subject predicate object : String) :
    literalReviewReason subject predicate object false = literalReviewReason "" predicate object
    false := by
  simp only [literalReviewReason, Bool.false_and]

theorem evaluateExtractedTriple_active {triple : Triple} {clusterId : ClusterId}
    {sourceEpisodeId : Option Rowid}
    {t : ActiveTriple} (h : evaluateExtractedTriple triple clusterId sourceEpisodeId = .active t) :
    Admitted triple t := by
  simp only [evaluateExtractedTriple] at h
  split at h
  · cases h
  next hcommon =>
  split at h
  · cases h
  next hpred =>
  split at h
  · cases h
  next hsubj =>
  split at h
  · cases h
  next objectId objectAlias objectKind hobj =>
  split at h
  · cases h
  next hlit =>
  split at h
  · cases h
  next hrev =>
    obtain rfl := TripleQualityDecision.active.inj h
    rw [Bool.not_eq_true, Bool.not_eq_false'] at hpred
    refine ⟨hcommon, rfl, ⟨rfl, fun hempty => hsubj (String.isEmpty_iff.2 hempty)⟩, ⟨rfl, hpred⟩,
      ?_⟩
    rcases evaluateObject_eq_ok hobj with ⟨hstored, rfl, hid, hne⟩ | ⟨hstored, rfl, hid⟩
    · exact .inl ⟨hstored, rfl, hid, hne⟩
    · obtain ⟨-, hchatter, -⟩ := commonReviewReason_eq_none.1 hcommon
      rw [if_pos rfl, literalReviewReason_subject] at hrev
      have hclean : looksLikeAssistantOrToolChatter objectId = false := by
        rw [hid]
        exact hchatter.2.2
      have huseful : usefulLiteral objectId = true := by simpa using hlit
      exact .inr ⟨hstored, rfl, hid, hclean, huseful, hrev⟩

/-! ### The second gate -/

/-- The object of the stored fact is clean to the second gate; a literal is cleaned again. -/
def ObjectClean (triple : Triple) : Prop :=
  let rawObject := cleanLabel triple.objectId
  (StoredAsEntity triple → looksLikeAssistantOrToolChatter (canonicalEntityId rawObject) = false) ∧
    (¬ StoredAsEntity triple → cleanLabel rawObject = rawObject ∨
      LiteralClean (normalizePredicate (cleanLabel triple.predicate)) (cleanLabel rawObject))

/-- What the first gate has checked of the labels, checked of the canonical texts. -/
structure CanonicalClean (triple : Triple) : Prop where
  subject : looksLikeAssistantOrToolChatter (canonicalEntityId (cleanLabel triple.subjectId)) =
    false ∧ looksLikeCommitHash (canonicalEntityId (cleanLabel triple.subjectId)) = false
  predicate : looksLikeAssistantOrToolChatter (normalizePredicate (cleanLabel triple.predicate)) =
    false
  object : ObjectClean triple

/-- A useful literal is not empty and no blob. -/
theorem usefulLiteral_spec {o : String} (h : usefulLiteral o = true) : o ≠ "" ∧
    looksLikeLongUnderscoreBlob o = false := by
  simp only [usefulLiteral, Bool.and_eq_true, decide_eq_true_eq, Bool.not_eq_true'] at h
  refine ⟨?_, h.2⟩
  rintro rfl
  simp at h

namespace Admitted

variable {triple : Triple} {t : ActiveTriple}

theorem subject_isSlug (h : Admitted triple t) : IsSlug '-' t.subjectId.toList := by
  have hne := h.subject.2
  rw [h.subject.1] at hne ⊢
  exact canonicalEntityId_isSlug hne

theorem predicate_isSlug (h : Admitted triple t) : IsSlug '_' t.predicate.toList := by
  have huseful := h.predicate.2
  rw [h.predicate.1] at huseful ⊢
  refine normalizePredicate_isSlug fun hempty => ?_
  rw [hempty] at huseful
  revert huseful
  decide

/-- The second gate on the stored fact: the ids and the predicate are read as they are. -/
theorem review_eq_none_iff (h : Admitted triple t) :
    activeTripleReviewReason t.subjectId t.predicate t.objectId t.objectKind t.confidence false =
    none ↔
      commonReviewReason t.subjectId t.predicate (cleanLabel t.objectId) t.confidence = none ∧
        match t.objectKind with
        | .entity => canonicalEntityId (cleanLabel t.objectId) ≠ ""
        | .literal => usefulLiteral (cleanLabel t.objectId) = true ∧
            literalReviewReason "" t.predicate (cleanLabel t.objectId) false = none := by
  have hs := h.subject_isSlug
  have hp := h.predicate_isSlug
  unfold activeTripleReviewReason
  dsimp only
  rw [cleanLabel_of_isSlug plainSep_hyphen hs, cleanLabel_of_isSlug plainSep_underscore hp,
    canonicalEntityId_of_isSlug hs, normalizePredicate_of_isSlug hp, h.predicate.2]
  have hempty : t.subjectId.isEmpty = false := by
    rw [Bool.eq_false_iff, Ne, String.isEmpty_iff]
    exact h.subject.2
  rw [hempty]
  cases hcommon : commonReviewReason t.subjectId t.predicate (cleanLabel t.objectId)
    t.confidence with
  | some r => simp
  | none =>
    cases t.objectKind with
    | entity => simp [String.isEmpty_iff]
    | literal =>
      rw [literalReviewReason_subject]
      by_cases huseful : usefulLiteral (cleanLabel t.objectId) = true <;> simp [huseful]

/-- The common checks of the second gate: those that the stored fact cannot fail are left out. -/
theorem common_eq_none_iff (h : Admitted triple t) :
    commonReviewReason t.subjectId t.predicate (cleanLabel t.objectId) t.confidence = none ↔
      (looksLikeAssistantOrToolChatter t.subjectId = false ∧
        looksLikeCommitHash t.subjectId = false) ∧
        looksLikeAssistantOrToolChatter t.predicate = false ∧ cleanLabel t.objectId ≠ "" ∧
        looksLikeAssistantOrToolChatter (cleanLabel t.objectId) = false ∧
        looksLikeLongUnderscoreBlob (cleanLabel t.objectId) = false := by
  have hs := h.subject_isSlug
  have hpne : t.predicate ≠ "" := fun hempty => h.predicate_isSlug.ne_nil (by rw [hempty]; rfl)
  have hconf : ¬ t.confidence < minActiveTripleConfidence := by
    rw [h.confidence]
    exact (commonReviewReason_eq_none.1 h.common).2.2.1
  rw [commonReviewReason_eq_none, subjectIsMetadataValue, isMetadataValue_entityId hs,
    looksLikeLongUnderscoreBlob_entityId hs,
      looksLikeLongUnderscoreBlob_usefulPredicate h.predicate.2]
  constructor
  · rintro ⟨⟨-, -, hone⟩, ⟨hcs, hcp, hco⟩, -, ⟨-, -, hbo⟩, hcommit⟩
    exact ⟨⟨hcs, hcommit⟩, hcp, hone, hco, hbo⟩
  · rintro ⟨⟨hcs, hcommit⟩, hcp, hone, hco, hbo⟩
    exact ⟨⟨h.subject.2, hpne, hone⟩, ⟨hcs, hcp, hco⟩, hconf, ⟨rfl, rfl, hbo⟩, hcommit⟩

theorem review_eq_none_iff_clean (h : Admitted triple t) :
    activeTripleReviewReason t.subjectId t.predicate t.objectId t.objectKind t.confidence false =
    none ↔
      CanonicalClean triple := by
  rw [h.review_eq_none_iff, h.common_eq_none_iff]
  have hsubj := h.subject.1
  have hpred := h.predicate.1
  rcases h.object with ⟨hstored, hkind, hid, hne⟩ | ⟨hstored, hkind, hid, hclean⟩
  · have hslug : IsSlug '-' t.objectId.toList := by
      rw [hid] at hne ⊢
      exact canonicalEntityId_isSlug hne
    rw [hkind, cleanLabel_of_isSlug plainSep_hyphen hslug, canonicalEntityId_of_isSlug hslug,
      looksLikeLongUnderscoreBlob_entityId hslug, hsubj, hpred]
    constructor
    · rintro ⟨⟨hs, hp, -, ho, -⟩, -⟩
      exact ⟨hs, hp, fun _ => hid ▸ ho, fun h => absurd hstored h⟩
    · rintro ⟨hs, hp, ho⟩
      exact ⟨⟨hs, hp, hne, hid ▸ ho.1 hstored, rfl⟩, hne⟩
  · rw [hkind, hid]
    rw [hpred] at hclean ⊢
    rw [hsubj]
    constructor
    · rintro ⟨⟨hs, hp, -, ho, -⟩, huseful, hreview⟩
      exact ⟨hs, hp, fun h => absurd h hstored, fun _ => .inr ⟨ho, huseful, hreview⟩⟩
    · rintro ⟨hs, hp, ho⟩
      have hlit : LiteralClean (normalizePredicate (cleanLabel triple.predicate))
          (cleanLabel (cleanLabel triple.objectId)) := by
        rcases ho.2 hstored with hsame | hlit
        · rw [hsame, ← hid]
          exact hclean
        · exact hlit
      obtain ⟨hne, hblob⟩ := usefulLiteral_spec hlit.useful
      exact ⟨⟨hs, hp, hne, hlit.chatter, hblob⟩, hlit.useful, hlit.review⟩

end Admitted

/-- The second gate on the fact that the first one stores. -/
def ActiveTriple.reviewReason (t : ActiveTriple) : Option TripleQualityReviewReason :=
  activeTripleReviewReason t.subjectId t.predicate t.objectId t.objectKind t.confidence false

theorem activeFact_clean_iff {triple : Triple} {clusterId : ClusterId}
    {sourceEpisodeId : Option Rowid}
    {t : ActiveTriple} (h : evaluateExtractedTriple triple clusterId sourceEpisodeId = .active t) :
    t.reviewReason = none ↔ CanonicalClean triple :=
  (evaluateExtractedTriple_active h).review_eq_none_iff_clean

/-- `alice`, this predicate, `bob`. -/
def aliceBob (predicate : String) : Triple :=
  ⟨"t", "alice", predicate, "bob", .entity, 0, none, 1, ⟨[], "", "", 0⟩⟩

def aliceBobFact (predicate : String) : ActiveTriple :=
  ⟨"t", "alice", "alice", predicate, "bob", some "bob", .entity, 0, none, 1⟩

theorem activeFact_clean_works_with :
    (aliceBobFact "works_with").reviewReason = none ↔ CanonicalClean (aliceBob "works with") := by
  have h : evaluateExtractedTriple (aliceBob "works with") "c" none =
      .active (aliceBobFact "works_with") := by
    decide +kernel
  exact activeFact_clean_iff h

/-! `function call` is no chatter as it is written, but `function_call` is. -/

theorem functionCall_active :
    evaluateExtractedTriple (aliceBob "function call") "c" none =
    .active (aliceBobFact "function_call") := by
  decide +kernel

theorem functionCall_reviewed : (aliceBobFact "function_call").reviewReason ≠ none := by
  decide +kernel

theorem functionCall_flagged : ¬ ∀ (triple : Triple) (clusterId : ClusterId)
    (sourceEpisodeId : Option Rowid)
    (t : ActiveTriple), evaluateExtractedTriple triple clusterId sourceEpisodeId = .active t →
    t.reviewReason = none := by
  intro h
  exact functionCall_reviewed
    (h (aliceBob "function call") "c" none (aliceBobFact "function_call") functionCall_active)

end Solo
