import Solo.Derived.Schema

/-!
# The quality gate of extracted triples (`triple_quality.rs`)

`evaluateExtractedTriple` decides whether a triple of an abstraction becomes an active fact, in
canonical form, or a candidate for review; `activeTripleReviewReason` looks again at a stored fact.
Both are pure functions of the texts.
-/

namespace Solo

open Text

/-- `MIN_ACTIVE_TRIPLE_CONFIDENCE`. -/
def minActiveTripleConfidence : Float32 := 0.85

structure ActiveTriple where
  tripleId : TripleId
  subjectId : String
  subjectAlias : String
  predicate : String
  objectId : String
  objectAlias : Option String
  objectKind : ObjectKind
  validFromMs : Int
  validToMs : Option Int
  confidence : Float32
  deriving DecidableEq

structure TripleReviewCandidate where
  reviewId : ReviewId
  candidateFingerprint : String
  tripleId : TripleId
  clusterId : ClusterId
  sourceEpisodeId : Option Rowid
  subjectId : String
  predicate : String
  objectId : String
  objectKind : ObjectKind
  confidence : Float32
  reasonCode : String
  reason : String
  provenance : Provenance
  deriving DecidableEq

inductive TripleQualityDecision
  | active (t : ActiveTriple)
  | review (c : TripleReviewCandidate)
  deriving DecidableEq

structure TripleQualityReviewReason where
  reasonCode : String
  reason : String
  deriving DecidableEq

/-- `solo_core::Triple`, as the steward extracts it. -/
structure Triple where
  tripleId : TripleId
  subjectId : String
  predicate : String
  objectId : String
  objectKind : ObjectKind
  validFromMs : Int
  validToMs : Option Int
  confidence : Float32
  provenance : Provenance
  deriving DecidableEq

/-! ### Labels -/

def isLabelQuote (c : Char) : Bool :=
  c = '"' || c = '\'' || c.toNat = 0x60 || c = '[' || c = ']' || c = '(' || c = ')'

def cleanLabel (raw : String) : String :=
  let trimmed := trimMatches isLabelQuote (trimList raw.toList)
  String.ofList (trimList ((stripPrefix? trimmed "ent:").getD trimmed))

def canonicalEntityId (raw : String) : String :=
  String.ofList <|
    slug '-' (fun c => isWhitespace c || c = '_' || c = '-' || c = '.' || c = '/' || c = '\\')
    (cleanLabel raw).toList

def normalizePredicate (raw : String) : String :=
  String.ofList <|
    slug '_' (fun c => isWhitespace c || c = '-' || c = '_' || c = ':' || c = '/' || c = '\\')
    (trimList raw.toList)

def looksLikeMachineIdentifier (value : String) : Bool :=
  let value := trimList value.toList
  if value.isEmpty || value.any isWhitespace then false
  else if value ≠ toAsciiLowercase value then false
  else if !value.all fun c => c.isLower || c.isDigit || c = '_' || c = '-' || c = '.' then false
  else
    let separators := value.countP fun c => c = '_' || c = '-' || c = '.'
    let digits := value.countP Char.isDigit
    let len := value.length
    (len ≥ 24 && separators ≥ 1) || separators ≥ 3 || digits ≥ 6

def usefulPredicate (predicate : String) : Bool :=
  let len := predicate.toList.length
  2 ≤ len && len ≤ 64 &&
    !(["none", "null", "unknown", "n_a", "na", "thing", "stuff"].contains predicate)

def looksLikeLongUnderscoreBlob (value : String) : Bool :=
  let cs := value.toList
  if cs.length < 72 then false
  else cs.countP (· = '_') ≥ 5 && cs.countP isWhitespace ≤ 2

def usefulLiteral (value : String) : Bool :=
  let len := value.toList.length
  1 ≤ len && len ≤ 240 && !looksLikeLongUnderscoreBlob value

/-! ### Values that name a thing of the machine -/

def looksLikePathOrUrl (value : String) : Bool :=
  let v := trimList value.toList
  let lower := toAsciiLowercase v
  let bytes := utf8 v
  startsWith lower "http://" || startsWith lower "https://" || startsWith lower "file://" ||
    startsWith lower "mcp://" || startsWith v "/" || startsWith v "./" || startsWith v "../" ||
    startsWith v ".\\" || startsWith v "..\\" ||
    (bytes.length ≥ 3 && bytes[1]? = some ':'.toNat && bytes[2]? = some '\\'.toNat) ||
    (contains v "\\" && (contains v ":" || contains v ".rs" || contains v ".ts"))

def looksLikeCommitHash (value : String) : Bool :=
  let lower := toAsciiLowercase (trimList value.toList)
  let v := ((stripPrefix? lower "commit_").orElse fun _ => stripPrefix? lower "commit-").getD lower
  let len := (utf8 v).length
  7 ≤ len && len ≤ 64 && v.all isAsciiHexdigit

def looksLikeBranchRef (value : String) : Bool :=
  let lower := toAsciiLowercase (trimList value.toList)
  ["refs/heads/", "refs/remotes/", "origin/", "feature/", "fix/", "bugfix/", "release/"].any
    fun pre => startsWith lower pre

/-- The body that `subject_is_metadata_value` and `object_is_metadata_literal` share. -/
def isMetadataValue (value : String) : Bool :=
  looksLikePathOrUrl value || looksLikeCommitHash value || looksLikeBranchRef value

def subjectIsMetadataValue (value : String) : Bool := isMetadataValue value

def objectIsMetadataLiteral (value : String) : Bool := isMetadataValue value

def activeEntityObjectShouldBeLiteral (objectId : String) : Bool :=
  objectIsMetadataLiteral (cleanLabel objectId)

def looksLikeAssistantOrToolChatter (value : String) : Bool :=
  let lower := toAsciiLowercase value.toList
  ["assistant", "the assistant", "ai assistant", "system", "tool", "tool_call", "tool-call",
    "tool_output",
    "tool-output", "tool result", "tool_result", "function_call", "function-call",
    "function output", "function_output"].contains (String.ofList lower) ||
  (contains lower "assistant" &&
    (contains lower "unable" || contains lower "cannot" || contains lower "can't" ||
      contains lower "refus" || contains lower "no assistance")) ||
  contains lower "unable to provide assistance" || contains lower "i cannot" ||
  contains lower "i can't" ||
  contains lower "as an ai" || contains lower "tool call" || contains lower "tool output" ||
  contains lower "system prompt"

/-! ### Literals -/

def looksLikeMachineLiteral (value : String) : Bool :=
  let value := trimList value.toList
  if value.any isWhitespace then false
  else if value.length < 32 then false
  else
    value.countP (fun c => c = '_' || c = '-' || c = '.' || c = ':' || c = '/') ≥ 2 &&
      value.countP Char.isAlphanum ≥ 12

def weakLiteralPredicate (predicate : String) : Bool :=
  ["has", "has_value", "has_feature", "has_property", "mentions", "references", "related_to",
    "is"].contains predicate

def literalReviewReason (subjectId predicate objectId : String) (literalOnlySubject : Bool) :
    Option TripleQualityReviewReason :=
  if objectIsMetadataLiteral objectId then none
  else if literalOnlySubject && looksLikeMachineIdentifier subjectId then
    some ⟨"literal_only_machine_entity",
      "machine-looking entities with only literal facts should be reviewed or given a human alias"⟩
  else
    let len := objectId.toList.length
    if len > 160 then
      some ⟨"long_literal_evidence",
        "long literal evidence should stay in source memory or inspector evidence, not as an active graph fact"⟩
    else if looksLikeMachineLiteral objectId then
      some ⟨"machine_literal",
        "machine-shaped literal values should be reviewed before becoming active graph facts"⟩
    else if weakLiteralPredicate predicate && len > 80 then
      some ⟨"weak_literal_claim",
        "vague literal facts need a clearer predicate/object shape before activation"⟩
    else none

/-! ### The two gates -/

def lowConfidenceReason (confidence : Float32) : String :=
  s!"confidence {fixed2 confidence} is below the active fact floor {fixed2 minActiveTripleConfidence}"

/-- `review_candidate`. -/
def reviewCandidate (triple : Triple) (clusterId : ClusterId) (sourceEpisodeId : Option Rowid)
    (subjectId predicate objectId : String) (r : TripleQualityReviewReason) :
    TripleReviewCandidate :=
  let hash := fnv1a64Hex
    s!"{clusterId}|{subjectId}|{predicate}|{objectId}|{triple.objectKind.asStr}|{r.reasonCode}"
  ⟨s!"trv-{hash}", hash, triple.tripleId, clusterId, sourceEpisodeId, subjectId, predicate,
    objectId, triple.objectKind, triple.confidence, r.reasonCode, r.reason, triple.provenance⟩

/-- The checks that both gates begin with, on the cleaned labels. -/
def commonReviewReason (subject predicate object : String) (confidence : Float32) :
    Option TripleQualityReviewReason :=
  if subject.isEmpty || predicate.isEmpty || object.isEmpty then
    some ⟨"incomplete_shape", "subject, predicate, and object must all be present"⟩
  else if looksLikeAssistantOrToolChatter subject || looksLikeAssistantOrToolChatter predicate ||
      looksLikeAssistantOrToolChatter object then
    some ⟨"assistant_or_tool_chatter", "assistant/refusal/tool chatter is not durable user memory"⟩
  else if confidence < minActiveTripleConfidence then
    some ⟨"low_confidence", lowConfidenceReason confidence⟩
  else if looksLikeLongUnderscoreBlob subject || looksLikeLongUnderscoreBlob predicate ||
      looksLikeLongUnderscoreBlob object then
    some ⟨"long_machine_blob",
      "long underscore-heavy machine blobs are too brittle for active facts"⟩
  else if subjectIsMetadataValue subject then
    some ⟨"metadata_subject",
      "paths, URLs, branches, and commit-like values cannot be fact subjects"⟩
  else none

def weakPredicate (rawPredicate : String) : TripleQualityReviewReason :=
  ⟨"weak_predicate", s!"predicate {debug rawPredicate} is too vague or malformed"⟩

def weakSubject (rawSubject : String) : TripleQualityReviewReason :=
  ⟨"weak_subject", s!"subject {debug rawSubject} does not normalize to a useful entity"⟩

def weakObject (rawObject : String) : TripleQualityReviewReason :=
  ⟨"weak_object", s!"object {debug rawObject} does not normalize to a useful entity"⟩

def weakLiteral : TripleQualityReviewReason :=
  ⟨"weak_literal", "literal object is too short, too long, or too machine-shaped"⟩

/-- The object as `evaluate_extracted_triple` stores it: id, alias and kind. -/
def evaluateObject (triple : Triple) (rawObject : String) :
    Except TripleQualityReviewReason (String × Option String × ObjectKind) :=
  match triple.objectKind with
  | .entity =>
    if objectIsMetadataLiteral rawObject then .ok (rawObject, none, .literal)
    else
      let objectId := canonicalEntityId rawObject
      if objectId.isEmpty then .error (weakObject rawObject)
        else .ok (objectId, some rawObject, .entity)
  | .literal => .ok (rawObject, none, .literal)

def evaluateExtractedTriple (triple : Triple) (clusterId : ClusterId)
    (sourceEpisodeId : Option Rowid) :
    TripleQualityDecision :=
  let rawSubject := cleanLabel triple.subjectId
  let rawPredicate := cleanLabel triple.predicate
  let rawObject := cleanLabel triple.objectId
  let review := fun r =>
    .review (reviewCandidate triple clusterId sourceEpisodeId rawSubject rawPredicate rawObject r)
  match commonReviewReason rawSubject rawPredicate rawObject triple.confidence with
  | some r => review r
  | none =>
    let predicate := normalizePredicate rawPredicate
    if !usefulPredicate predicate then review (weakPredicate rawPredicate)
    else
      let subjectId := canonicalEntityId rawSubject
      if subjectId.isEmpty then review (weakSubject rawSubject)
      else
        match evaluateObject triple rawObject with
        | .error r => review r
        | .ok (objectId, objectAlias, objectKind) =>
          if objectKind = .literal && !usefulLiteral objectId then review weakLiteral
          else
            match if objectKind = .literal then literalReviewReason subjectId predicate objectId
              false else none with
            | some r => review r
            | none =>
              .active ⟨triple.tripleId, subjectId, rawSubject, predicate, objectId, objectAlias,
                objectKind, triple.validFromMs, triple.validToMs, triple.confidence⟩

/-- A candidate for review is of the triple and the cluster it was proposed with. -/
theorem evaluateExtractedTriple_review {triple : Triple} {clusterId : ClusterId}
    {sourceEpisodeId : Option Rowid}
    {c : TripleReviewCandidate}
    (h : evaluateExtractedTriple triple clusterId sourceEpisodeId = .review c) :
    ∃ r, c = reviewCandidate triple clusterId sourceEpisodeId (cleanLabel triple.subjectId)
      (cleanLabel triple.predicate) (cleanLabel triple.objectId) r := by
  simp only [evaluateExtractedTriple] at h
  split at h
  · exact ⟨_, (TripleQualityDecision.review.inj h).symm⟩
  split at h
  · exact ⟨_, (TripleQualityDecision.review.inj h).symm⟩
  split at h
  · exact ⟨_, (TripleQualityDecision.review.inj h).symm⟩
  split at h
  · exact ⟨_, (TripleQualityDecision.review.inj h).symm⟩
  split at h
  · exact ⟨_, (TripleQualityDecision.review.inj h).symm⟩
  split at h
  · exact ⟨_, (TripleQualityDecision.review.inj h).symm⟩
  · cases h

/-- `active_triple_review_reason`; a stored `object_kind` is one of the two, so the reason
`invalid_object_kind` does not arise. -/
def activeTripleReviewReason (subjectId predicate objectId : String) (objectKind : ObjectKind)
    (confidence : Float32) (literalOnlySubject : Bool) : Option TripleQualityReviewReason :=
  let rawSubject := cleanLabel subjectId
  let rawPredicate := cleanLabel predicate
  let rawObject := cleanLabel objectId
  match commonReviewReason rawSubject rawPredicate rawObject confidence with
  | some r => some r
  | none =>
    if (canonicalEntityId rawSubject).isEmpty then some (weakSubject rawSubject)
    else
      let normalizedPredicate := normalizePredicate rawPredicate
      if !usefulPredicate normalizedPredicate then some (weakPredicate rawPredicate)
      else
        match objectKind with
        | .entity => if (canonicalEntityId rawObject).isEmpty then some (weakObject rawObject)
          else none
        | .literal =>
          if !usefulLiteral rawObject then some weakLiteral
          else literalReviewReason (canonicalEntityId rawSubject)
            normalizedPredicate rawObject literalOnlySubject

def claimStatusForReviewReason (reasonCode : String) : ClaimStatus :=
  if ["assistant_or_tool_chatter", "long_machine_blob"].contains reasonCode then .quarantined
  else if ["metadata_subject", "incomplete_shape", "invalid_object_kind"].contains reasonCode
    then .rejected
  else .needsReview

end Solo
